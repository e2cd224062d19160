import Argand.Text.Blank

/-!
# Lines

How a text falls into lines.  A line ends at any of the line breaks of Unicode
or at the end of the text; a break at the very end opens no further line, and a
carriage return followed by a line feed is one break.

## Main definitions

* `isLineBreak c` — `c` ends a line.
* `lines cs` — the lines of a text, without their breaks.
* `splitAtNewlines cs` — the pieces between line feeds only, the last one
  included even when it is empty.
-/

namespace Argand.Text

/-- The characters that end a line. -/
def isLineBreak (c : Char) : Bool :=
  let n := c.toNat
  (0x0A ≤ n && n ≤ 0x0D) || (0x1C ≤ n && n ≤ 0x1E) || n == 0x85 || n == 0x2028 || n == 0x2029

/-- Puts a character in front of the first line. -/
def consToFirst (c : Char) : List (List Char) → List (List Char)
  | [] => [[c]]
  | line :: rest => (c :: line) :: rest

/-- The lines of a text, without their breaks. -/
def lines : List Char → List (List Char)
  | [] => []
  | '\r' :: '\n' :: cs => [] :: lines cs
  | c :: cs => if isLineBreak c then [] :: lines cs else consToFirst c (lines cs)

/-- The pieces of a text between its line feeds; there is always at least one. -/
def splitAtNewlines : List Char → List (List Char)
  | [] => [[]]
  | c :: cs => if c = '\n' then [] :: splitAtNewlines cs else consToFirst c (splitAtNewlines cs)

/-! ### Basic properties -/

@[simp] theorem consToFirst_nil (c : Char) : consToFirst c [] = [[c]] := rfl

@[simp] theorem consToFirst_cons (c : Char) (line : List Char) (rest : List (List Char)) :
    consToFirst c (line :: rest) = (c :: line) :: rest := rfl

@[simp] theorem lines_nil : lines [] = [] := rfl

@[simp] theorem lines_crlf (cs : List Char) : lines ('\r' :: '\n' :: cs) = [] :: lines cs := rfl

/-- Every line break is blank, so trimming a line never joins it to another. -/
theorem isBlank_of_isLineBreak {c : Char} (h : isLineBreak c) : isBlank c := by
  simp only [isLineBreak, Bool.or_eq_true, Bool.and_eq_true, decide_eq_true_eq, beq_iff_eq] at h
  simp only [isBlank, Bool.or_eq_true, Bool.and_eq_true, decide_eq_true_eq, beq_iff_eq]
  omega

example : lines "a\r\nb\n\nc\r".toList = [['a'], ['b'], [], ['c']] := by decide
example : splitAtNewlines "a\n".toList = [['a'], []] := by decide

end Argand.Text
