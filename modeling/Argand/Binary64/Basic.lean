import Argand.Ratio

/-!
# Doubles as exact numbers

A finite double is `± significand · 2 ^ exponent`.  This module takes doubles
apart and finds the double nearest to an exact ratio, so that reading, printing
and rounding can be done in natural numbers.

## Main definitions

* `Parts`, `decode x` — sign, significand and exponent of a finite double.
* `Parts.magnitude` — its absolute value as a ratio.
* `nearest r` — the double nearest to the ratio `r`.
* `signed negative x` — `x`, with its sign changed if asked.
* `floor? x` — the largest integer not above a finite double.
* `infinity`, `undefined`, `pi`, `euler` — the constants calculations need.
-/

namespace Argand.Binary64

/-- Positive infinity. -/
def infinity : Float := Float.ofBits 0x7FF0000000000000

/-- The result of a calculation that has none. -/
def undefined : Float := Float.ofBits 0x7FF8000000000000

/-- The double nearest to π. -/
def pi : Float := Float.ofBits 0x400921FB54442D18

/-- The double nearest to Euler's number. -/
def euler : Float := Float.ofBits 0x4005BF0A8B145769

/-- Every finite double is a whole multiple of `2 ^ minExponent`, the smallest
positive one. -/
def minExponent : Int := -1074

/-- A finite double taken apart: it is `± significand · 2 ^ exponent`. -/
structure Parts where
  negative : Bool
  significand : Nat
  exponent : Int
  deriving DecidableEq, Repr

/-- The weight of the lowest bit of the exponent field, and of the leading bit of a
normal significand, `2 ^ 52`. -/
def fieldUnit : Nat := Nat.pow 2 52

/-- How many values the exponent field can take. -/
def fieldSize : Nat := Nat.pow 2 11

/-- The exponent field of infinities and undefined values, in its place. -/
def infinityBits : Nat := 0x7FF0000000000000

/-- Whether the sign bit of a double is set, as it is for negative zero too. -/
def isNegative (x : Float) : Bool := x.toBits.toNat / (fieldUnit * fieldSize) == 1

/-- Takes a finite double apart. -/
def decode (x : Float) : Parts :=
  let bits := x.toBits.toNat
  let field : Nat := bits / fieldUnit % fieldSize
  let low : Nat := bits % fieldUnit
  -- the leading bit of a normal significand is not stored
  if field = 0 then ⟨isNegative x, low, minExponent⟩
  else ⟨isNegative x, low + fieldUnit, (field : Int) + (minExponent - 1)⟩

/-- The absolute value as a ratio. -/
def Parts.magnitude (p : Parts) : Ratio := Ratio.scale 2 p.exponent ⟨p.significand, 1⟩

/-- `x`, with its sign changed if asked. -/
def signed (negative : Bool) (x : Float) : Float := if negative then -x else x

/-- The double nearest to a ratio, a tie going to the even significand; infinity
past the largest double.  The significand takes 53 bits, or as many as there are
above `2 ^ minExponent`; one that rounds up to 54 bits carries into the exponent
field, which stands just above it. -/
def nearest (r : Ratio) : Float :=
  if r.num = 0 then 0 else
  let exponent := max (r.floorLog2 - 52) minExponent
  let bits := (exponent - minExponent).toNat * fieldUnit + (r.scale 2 (-exponent)).round
  Float.ofBits (UInt64.ofNat (min bits infinityBits))

/-- The largest integer that is not above a finite double; `none` for the
others. -/
def floor? (x : Float) : Option Int :=
  if x.isFinite then
    let p := decode x
    let r := p.magnitude
    some ((if p.negative then -(r.num : Int) else r.num) / (r.den : Int))
  else none

@[simp] theorem signed_false (x : Float) : signed false x = x := rfl

@[simp] theorem signed_true (x : Float) : signed true x = -x := rfl

example : decode 1 = ⟨false, fieldUnit, -52⟩ := by decide +kernel
example : decode (-0.0) = ⟨true, 0, -1074⟩ := by decide +kernel
example : nearest ⟨1, 10⟩ = 0.1 ∧ nearest ⟨Nat.pow 2 1024, 1⟩ = infinity := by decide +kernel
example : floor? (-1.5) = some (-2) ∧ floor? 3 = some 3 ∧ floor? infinity = none := by
  decide +kernel

end Argand.Binary64
