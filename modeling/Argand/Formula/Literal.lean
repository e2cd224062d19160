import Argand.Decimal.Numeral
import Argand.Formula.ParseError
import Argand.Text.Blank

/-!
# Literals

A literal is a sum of signed terms such as `4 - 3i`, `-i` or `2,5e-3J`.  A term
is a numeral, an imaginary unit, or a numeral with the unit behind it.  Blanks
may surround the signs, and a comma may stand for the point.

## Main definitions

* `normalize cs` — the text without blanks around its signs, and with points.
* `Term`, `leadingTerm cs` — a term as it is written, and the longest one at the
  start of a text.
* `terms? cs` — the terms of a normalized literal.
* `read? cs` — the number a text denotes: the real and the imaginary terms are
  added up from left to right.
* `isNumber`, `parseNumber` — the test and the reading with its error.
-/

namespace Argand.Literal

open Text Numeral

/-! ### Normal form -/

/-- Leaves out the blanks on either side of a sign; the flag tells that the last
character kept was a sign. -/
def tightenSigns (afterSign : Bool) : List Char → List Char
  | [] => []
  | c :: cs =>
    if isBlank c then
      -- what comes after all the blanks decides about each of them
      if afterSign || (trimStart cs).head?.any isSign then tightenSigns afterSign cs
      else c :: tightenSigns false cs
    else c :: tightenSigns (isSign c) cs

/-- A comma stands for the point. -/
def pointForComma (c : Char) : Char := if c == ',' then '.' else c

/-- The text without the blanks around it and around its signs, and with points
for commas. -/
def normalize (cs : List Char) : List Char := (tightenSigns false (trim cs)).map pointForComma

/-! ### Terms -/

/-- A term as it is written: its sign, its numeral and its unit.  Each may be
missing, but not the last two together. -/
structure Term where
  sign : List Char
  digits : List Char
  unit : List Char
  deriving DecidableEq, Repr

/-- The characters of a term, in order. -/
def Term.text (t : Term) : List Char := t.sign ++ t.digits ++ t.unit

/-- Whether there is anything but a sign. -/
def Term.isComplete (t : Term) : Bool := !t.digits.isEmpty || !t.unit.isEmpty

/-- Whether the term counts towards the imaginary part. -/
def Term.isImaginary (t : Term) : Bool := !t.unit.isEmpty

/-- The signed value of a term; a unit alone counts once. -/
def Term.value (t : Term) : Float :=
  Binary64.signed (t.sign == ['-']) (if t.digits.isEmpty then 1 else Numeral.value t.digits)

/-- The letter of the imaginary unit that a text starts with, if any. -/
def unitPart : List Char → List Char
  | [] => []
  | c :: _ => if isUnit c then [c] else []

/-- The longest term at the start of a text. -/
def leadingTerm (cs : List Char) : Term :=
  let sign := signPart cs
  let digits := leading (cs.drop sign.length)
  ⟨sign, digits, unitPart (cs.drop (sign.length + digits.length))⟩

/-- A complete term has at least one character. -/
theorem Term.length_text_pos {t : Term} (h : t.isComplete) : 0 < t.text.length := by
  simp only [Term.isComplete, Bool.or_eq_true, Bool.not_eq_true', List.isEmpty_eq_false_iff] at h
  simp only [Term.text, List.length_append]
  rcases h with h | h
  · have := List.length_pos_iff.2 h
    omega
  · have := List.length_pos_iff.2 h
    omega

/-- Whether a term can stand where it does: every term but the first needs a
sign. -/
def Term.fits (signed : Bool) (t : Term) : Bool := t.isComplete && (!signed || !t.sign.isEmpty)

/-- The terms a text consists of; the flag tells that the first one needs a sign
too. -/
def termsFrom? (signed : Bool) (cs : List Char) : Option (List Term) :=
  if _h : (leadingTerm cs).fits signed then
    -- the term is all there is, or it is followed by another with a sign
    if cs.length ≤ (leadingTerm cs).text.length then some [leadingTerm cs]
    else (termsFrom? true (cs.drop (leadingTerm cs).text.length)).map (leadingTerm cs :: ·)
  else none
termination_by cs.length
decreasing_by
  have := Term.length_text_pos (Bool.and_eq_true_iff.1 _h).1
  simp only [List.length_drop]
  omega

/-- The terms of a normalized literal. -/
def terms? (cs : List Char) : Option (List Term) := termsFrom? false cs

/-! ### Reading -/

/-- The sum of the values of some terms, from left to right. -/
def sum (ts : List Term) : Float := ts.foldl (fun total t => total + t.value) 0

/-- The number that a list of terms denotes. -/
def value (ts : List Term) : ComplexNumber Float :=
  ⟨sum (ts.filter (!·.isImaginary)), sum (ts.filter (·.isImaginary))⟩

/-- The number that a text denotes, if it is a literal. -/
def read? (cs : List Char) : Option (ComplexNumber Float) := (terms? (normalize cs)).map value

end Argand.Literal

namespace Argand

/-- Whether a text is a literal. -/
def isNumber (cs : List Char) : Bool := (Literal.read? cs).isSome

/-- Reads a text that should be a literal. -/
def parseNumber (cs : List Char) (line : Int) : Except ParseError (ComplexNumber Float) :=
  match Literal.read? cs with
  | some z => .ok z
  | none => .error ⟨line, 0, .notANumber (String.ofList (Text.trim cs))⟩

/-- A literal is what can be read as one. -/
theorem isNumber_iff_parseNumber (cs : List Char) (line : Int) :
    isNumber cs ↔ ∃ z, parseNumber cs line = .ok z := by
  unfold isNumber parseNumber
  cases Literal.read? cs <;> simp

example : Literal.read? " 4 - 3i ".toList = some ⟨4, -3⟩ ∧
    Literal.read? "-J".toList = some ⟨0, -1⟩ ∧ Literal.read? "1,5".toList = some ⟨1.5, 0⟩ ∧
    Literal.read? "4 3".toList = none ∧ Literal.read? "2i3".toList = none := by decide +kernel

end Argand
