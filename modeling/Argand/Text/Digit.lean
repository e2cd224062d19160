/-!
# Decimal digits

The decimal digits of every script.  They come in runs of ten consecutive
characters, zero first, so a table of the zeros is all there is to know.

## Main definitions

* `digitZeros` — the code points of the zeros, in ascending order.
* `digitValue? c` — the value of a decimal digit.
* `isDigit c` — `c` is a decimal digit of some script.
-/

namespace Argand.Text

/-- The code points of the digits zero, in ascending order. -/
def digitZeros : List Nat :=
  [0x0030, 0x0660, 0x06F0, 0x07C0, 0x0966, 0x09E6, 0x0A66, 0x0AE6, 0x0B66, 0x0BE6, 0x0C66, 0x0CE6,
   0x0D66, 0x0DE6, 0x0E50, 0x0ED0, 0x0F20, 0x1040, 0x1090, 0x17E0, 0x1810, 0x1946, 0x19D0, 0x1A80,
   0x1A90, 0x1B50, 0x1BB0, 0x1C40, 0x1C50, 0xA620, 0xA8D0, 0xA900, 0xA9D0, 0xA9F0, 0xAA50, 0xABF0,
   0xFF10, 0x104A0, 0x10D30, 0x11066, 0x110F0, 0x11136, 0x111D0, 0x112F0, 0x11450, 0x114D0,
   0x11650, 0x116C0, 0x11730, 0x118E0, 0x11950, 0x11C50, 0x11D50, 0x11DA0, 0x16A60, 0x16AC0,
   0x16B50, 0x1D7CE, 0x1D7D8, 0x1D7E2, 0x1D7EC, 0x1D7F6, 0x1E140, 0x1E2F0, 0x1E950, 0x1FBF0]

/-- The value of a decimal digit, `none` for any other character. -/
def digitValue? (c : Char) : Option Nat :=
  (digitZeros.find? fun start => start ≤ c.toNat && c.toNat ≤ start + 9).map (c.toNat - ·)

/-- The value of a decimal digit, `0` for any other character. -/
def digitValue (c : Char) : Nat := (digitValue? c).getD 0

/-- `c` is a decimal digit of some script. -/
def isDigit (c : Char) : Bool := (digitValue? c).isSome

/-! ### Basic properties -/

/-- A digit is worth less than ten. -/
theorem digitValue_le_nine (c : Char) : digitValue c ≤ 9 := by
  unfold digitValue digitValue?
  cases h : digitZeros.find? fun start => start ≤ c.toNat && c.toNat ≤ start + 9 with
  | none => simp
  | some start =>
    have hz := List.find?_some h
    simp only [Bool.and_eq_true, decide_eq_true_eq] at hz
    simp only [Option.map_some, Option.getD_some]
    omega

example : digitZeros.length = 66 := rfl
example : "0123456789".toList.map digitValue = [0, 1, 2, 3, 4, 5, 6, 7, 8, 9] := by decide
example : digitValue? '٣' = some 3 ∧ digitValue? '²' = none := by decide

end Argand.Text
