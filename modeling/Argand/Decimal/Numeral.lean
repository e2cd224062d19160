import Argand.Binary64.Basic
import Argand.Text.Digit

/-!
# Numerals

Decimal numerals as they are written: digits with a point somewhere among them,
and a power of ten after an `e`.  A comma serves as a point.  A text is always
cut at the longest numeral it starts with, and the value of a numeral is the
double nearest to the decimal it denotes.

## Main definitions

* `Numeral.Parts`, `Numeral.parts cs` — the digits, the point with what follows
  it, and the power of ten that a text starts with.
* `Numeral.leading cs` — the longest numeral at the start of a text, empty if
  there is none.
* `Numeral.value cs` — the value of a numeral.
* `Numeral.readDouble? s` — the double that a text is.
* `nearestDecimal coefficient exponent` — the double nearest to
  `coefficient · 10 ^ exponent`.
-/

namespace Argand

namespace Decimal

/-- The double nearest to `coefficient · 10 ^ exponent`.  Decimals far outside
the range of doubles are settled by their exponent alone. -/
def nearestDecimal (coefficient : Nat) (exponent : Int) : Float :=
  if coefficient = 0 then 0
  -- no double reaches `10 ^ 400`, and none but zero is nearest to `10 ^ -400`
  else if 400 < exponent then Binary64.infinity
  else if exponent + (coefficient.log2 + 1 : Nat) < -400 then 0
  else Binary64.nearest (Ratio.scale 10 exponent ⟨coefficient, 1⟩)

/-- The natural number that a row of digits denotes. -/
def ofDigits (digits : List Char) : Nat :=
  digits.foldl (fun n c => 10 * n + Text.digitValue c) 0

end Decimal

namespace Numeral

open Text

/-- A point or a comma. -/
def isPoint (c : Char) : Bool := c == '.' || c == ','

/-- The letter before a power of ten. -/
def isExponentMark (c : Char) : Bool := c == 'e' || c == 'E'

/-- A plus or minus sign. -/
def isSign (c : Char) : Bool := c == '+' || c == '-'

/-- The sign that a text starts with, if any. -/
def signPart : List Char → List Char
  | [] => []
  | c :: _ => if isSign c then [c] else []

/-- The point that a text starts with and the digits after it. -/
def pointPart : List Char → List Char
  | [] => []
  | c :: cs => if isPoint c then c :: cs.takeWhile isDigit else []

/-- The power of ten that a text starts with: the mark, a sign if there is one,
and at least one digit. -/
def exponentPart : List Char → List Char
  | [] => []
  | c :: cs =>
    let sign := signPart cs
    let digits := (cs.drop sign.length).takeWhile isDigit
    if isExponentMark c && !digits.isEmpty then c :: (sign ++ digits) else []

/-- The three parts of a numeral, as they are written. -/
structure Parts where
  whole : List Char
  point : List Char
  exponent : List Char
  deriving DecidableEq, Repr

/-- The longest parts at the start of a text. -/
def parts (cs : List Char) : Parts :=
  let whole := cs.takeWhile isDigit
  let point := pointPart (cs.drop whole.length)
  ⟨whole, point, exponentPart (cs.drop (whole.length + point.length))⟩

/-- The characters of the parts, in order. -/
def Parts.text (p : Parts) : List Char := p.whole ++ p.point ++ p.exponent

/-- Parts make a numeral if there is a digit before or after the point. -/
def Parts.isNumeral (p : Parts) : Bool := !p.whole.isEmpty || 1 < p.point.length

/-- The sign and the digits after an exponent mark. -/
def Parts.power (p : Parts) : Int :=
  match p.exponent.drop 1 with
  | '-' :: digits => -(Decimal.ofDigits digits : Int)
  | '+' :: digits => Decimal.ofDigits digits
  | digits => Decimal.ofDigits digits

/-- The double nearest to what the parts denote. -/
def Parts.value (p : Parts) : Float :=
  let fraction := p.point.drop 1
  Decimal.nearestDecimal (Decimal.ofDigits (p.whole ++ fraction)) (p.power - fraction.length)

/-- The longest numeral at the start of a text; empty if there is none. -/
def leading (cs : List Char) : List Char :=
  if (parts cs).isNumeral then (parts cs).text else []

/-- The value of a numeral. -/
def value (cs : List Char) : Float := (parts cs).value

/-! ### Doubles -/

/-- The absolute value of a double that is written out. -/
def magnitude? (cs : List Char) : Option Float :=
  if cs = ['i', 'n', 'f'] then some Binary64.infinity
  else if !cs.isEmpty && leading cs = cs then some (value cs)
  else none

/-- The double that a text is: a numeral or `inf` with or without a minus sign, or
`nan`. -/
def readDouble? (s : String) : Option Float :=
  match s.toList with
  | ['n', 'a', 'n'] => some Binary64.undefined
  | '-' :: cs => (magnitude? cs).map (- ·)
  | cs => magnitude? cs

/-! ### Basic properties -/

/-- A numeral has at least one character. -/
theorem length_leading_pos {cs : List Char} (h : (parts cs).isNumeral) :
    0 < (leading cs).length := by
  simp only [leading, h, ↓reduceIte, Parts.text, List.length_append]
  simp only [Parts.isNumeral, Bool.or_eq_true, Bool.not_eq_true', List.isEmpty_eq_false_iff,
    decide_eq_true_eq] at h
  rcases h with h | h
  · have := List.length_pos_iff.2 h
    omega
  · omega

example : leading "12.5e-3i".toList = "12.5e-3".toList ∧ leading ",5e".toList = ",5".toList ∧
    leading "e5".toList = [] ∧ leading ".".toList = [] := by decide

example : value "12.5e-3".toList = 0.0125 ∧ value "1e999999999999".toList = Binary64.infinity ∧
    value "1e-999999999999".toList = 0 := by decide +kernel

end Numeral

end Argand
