import Argand.Decimal.Shortest

/-!
# Decimals with a given number of digits

Writing a double with a fixed number of places after the point, or with a fixed
number of significant digits.  The exact value is rounded, half to even.

## Main definitions

* `fixed places x` — `places` digits after the point.
* `significant count x` — `count` significant digits and a power of ten; a zero
  is written as a single digit.
* `flushed bound count x` — the same, where everything nearer to zero than
  `bound` counts as zero.
-/

namespace Argand.Decimal

/-- A finite double with `places` digits after the point, and no point if there
are none. -/
def fixed (places : Nat) (x : Float) : List Char :=
  let p := Binary64.decode x
  let units := (p.magnitude.scale 10 places).round
  let row := padStart (places + 1) (Nat.toDigits 10 units)
  let wholeWidth := row.length - places
  signText p.negative ++ row.take wholeWidth ++ fractionText (row.drop wholeWidth)

/-- The magnitude rounded to `count` significant digits, at least one. -/
def roundSignificant (count : Nat) (r : Ratio) : Scientific :=
  let power := r.floorLog10 - (count - 1 : Nat)
  ⟨(r.scale 10 (-power)).round, power⟩

/-- A double with `count` significant digits and a power of ten. -/
def significant (count : Nat) (x : Float) : String :=
  (notFiniteText? x).getD <|
    let p := Binary64.decode x
    let digits :=
      if p.significand = 0 then ['0']
      else
        let d := roundSignificant count p.magnitude
        let row := Nat.toDigits 10 d.coefficient
        row.take 1 ++ fractionText ((row.drop 1).take (count - 1)) ++
          powerText layout.powerDigits (d.power + (row.length - 1 : Nat))
    String.ofList (signText p.negative ++ digits)

/-- `significant`, but a double nearer to zero than `bound` is written as zero
without a sign. -/
def flushed (bound : Float) (count : Nat) (x : Float) : String :=
  if x.abs < bound then "0" else significant count x

example : fixed 2 0.125 = "0.12".toList ∧ fixed 0 2.5 = "2".toList ∧ fixed 1 (-0.05) = "-0.1".toList ∧
    fixed 3 (-0.0) = "-0.000".toList := by decide +kernel

example : [1, -0.0, 9.99999999999, -2.204364238e-15, 1e-300].map (significant 10) =
    ["1.000000000e+00", "-0", "1.000000000e+01", "-2.204364238e-15", "1.000000000e-300"] := by
  decide +kernel

end Argand.Decimal
