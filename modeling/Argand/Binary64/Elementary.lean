import Argand.Binary64.Basic

/-!
# Elementary functions on doubles

Distance from the origin, angle, logarithm, exponential, sine and cosine.  Where
the IEEE standard fixes a value (at zeros, infinities and undefined arguments,
and for angles on the axes and diagonals) the value is written out here, and so
are the sine and the cosine of a quarter turn; between those points the functions
of the platform are taken.

## Main definitions

* `hypot x y` — the distance of `(x, y)` from the origin, correctly rounded.
* `angle y x` — the angle of `(x, y)`, in `[-π, π]`; the sign of a zero tells
  on which side of the negative axis a point lies.
* `log`, `exp`, `sin`, `cos` — as usual.
* `quarterTurn`, `halfTurn` and their parts — the angles fixed by the standard.
-/

namespace Argand.Binary64

/-! ### Distance -/

/-- The double nearest to `√n · 2 ^ e`.  The integer root is taken with 64 bits
to spare, and a last bit says whether it is inexact, so rounding it is rounding
the root itself. -/
def nearestSqrt (n : Nat) (e : Int) : Float :=
  let wide := n * Nat.pow 4 64
  let root := Nat.sqrt wide
  let sticky := if root * root = wide then 0 else 1
  nearest (Ratio.scale 2 (e - 65) ⟨2 * root + sticky, 1⟩)

/-- The distance of `(x, y)` from the origin.  An infinite coordinate decides,
even beside an undefined one. -/
def hypot (x y : Float) : Float :=
  if x.isInf || y.isInf then infinity
  else if x.isNaN || y.isNaN then undefined
  else
    let a := decode x
    let b := decode y
    -- both coordinates in units of `2 ^ e`
    let e := min a.exponent b.exponent
    let p := a.significand * Nat.pow 2 (a.exponent - e).toNat
    let q := b.significand * Nat.pow 2 (b.exponent - e).toNat
    nearestSqrt (p * p + q * q) e

/-! ### Angle -/

/-- A half turn, π. -/
def halfTurn : Float := pi

/-- A quarter turn, π/2. -/
def quarterTurn : Float := Float.ofBits 0x3FF921FB54442D18

/-- An eighth of a turn, π/4. -/
def eighthTurn : Float := Float.ofBits 0x3FE921FB54442D18

/-- Three eighths of a turn, 3π/4. -/
def threeEighthsTurn : Float := Float.ofBits 0x4002D97C7F3321D2

/-- The angle of `(x, height)` for a `height` that is not negative, where the
point lies on an axis or a diagonal or is infinitely far away. -/
def fixedAngle? (height x : Float) : Option Float :=
  if height == 0 then some (if isNegative x then halfTurn else 0)
  else if x == 0 then some quarterTurn
  else if height == x.abs then some (if x < 0 then threeEighthsTurn else eighthTurn)
  else if height.isInf then some quarterTurn
  else if x.isInf then some (if x < 0 then halfTurn else 0)
  else none

/-- The angle of the point `(x, y)`, with the sign of `y`. -/
def angle (y x : Float) : Float :=
  if y.isNaN || x.isNaN then undefined
  else match fixedAngle? y.abs x with
    | some t => signed (isNegative y) t
    | none => Float.atan2 y x

/-! ### Logarithm, exponential and circular functions -/

/-- The natural logarithm. -/
def log (x : Float) : Float :=
  if x.isNaN || x < 0 then undefined
  else if x == 0 then -infinity
  else if x == 1 then 0
  else if x.isInf then infinity
  else Float.log x

/-- The exponential function, which is never negative. -/
def exp (x : Float) : Float :=
  if x.isNaN then undefined
  else if x == 0 then 1
  else if x.isInf then (if x < 0 then 0 else infinity)
  else (Float.exp x).abs

/-- The sine; a zero keeps its sign. -/
def sin (x : Float) : Float :=
  if x.isNaN || x.isInf then undefined
  else if x == 0 then x
  else if x.abs == quarterTurn then signed (isNegative x) 1
  else Float.sin x

/-- The cosine of a quarter turn; it is not zero, as no double is exactly π/2. -/
def cosQuarterTurn : Float := Float.ofBits 0x3C91A62633145C07

/-- The cosine. -/
def cos (x : Float) : Float :=
  if x.isNaN || x.isInf then undefined
  else if x == 0 then 1
  else if x.abs == quarterTurn then cosQuarterTurn
  else Float.cos x

example : hypot 3 4 = 5 ∧ hypot infinity undefined = infinity ∧
    hypot (Float.ofBits 1) 0 = Float.ofBits 1 := by decide +kernel

example : angle 0 (-1) = halfTurn ∧ angle (-0.0) (-1) = -halfTurn ∧ angle (-0.0) 1 = -0.0 ∧
    angle (-2) 0 = -quarterTurn ∧ angle 5 (-5) = threeEighthsTurn := by decide +kernel

end Argand.Binary64
