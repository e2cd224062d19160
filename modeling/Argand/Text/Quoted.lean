import Argand.Text.Printable

/-!
# Quoted texts

A text between quotes, on one line and in printable characters only.

The quotes are single ones, unless the text holds single quotes and no double
ones.  The quote and the backslash are written with a backslash in front, line
feeds, returns and tabulators by a letter, and other unprintable characters by
their code point in two, four or eight hexadecimal digits.

## Main definitions

* `quoteFor cs` — the quotes a text is put between.
* `escaped quote c` — how a character is written between quotes.
* `quoted s` — the text between quotes.
-/

namespace Argand.Text

/-- The quotes a text is put between. -/
def quoteFor (cs : List Char) : Char := if cs.contains '\'' && !cs.contains '"' then '"' else '\''

/-- A number in hexadecimal with at least `width` digits. -/
def hexadecimal (width n : Nat) : List Char :=
  let digits := Nat.toDigits 16 n
  List.replicate (width - digits.length) '0' ++ digits

/-- A character by its code point. -/
def codePoint (n : Nat) : List Char :=
  if n ≤ 0xFF then '\\' :: 'x' :: hexadecimal 2 n
  else if n ≤ 0xFFFF then '\\' :: 'u' :: hexadecimal 4 n
  else '\\' :: 'U' :: hexadecimal 8 n

/-- How a character is written between quotes. -/
def escaped (quote c : Char) : List Char :=
  if c = quote || c = '\\' then ['\\', c]
  else if c = '\n' then ['\\', 'n']
  else if c = '\r' then ['\\', 'r']
  else if c = '\t' then ['\\', 't']
  else if isPrintable c then [c]
  else codePoint c.toNat

/-- A text between quotes. -/
def quoted (s : String) : String :=
  let quote := quoteFor s.toList
  String.ofList (quote :: (s.toList.flatMap (escaped quote) ++ [quote]))

example : quoted "k" = "'k'" ∧ quoted "it's" = "\"it's\"" ∧ quoted "a\n\x01\\" = "'a\\n\\x01\\\\'" := by
  decide +kernel

end Argand.Text
