import Argand.Binary64.Elementary

/-!
# Arithmetic of real numbers

The operations on real numbers that complex numbers and views are computed with.
Keeping them abstract lets one set of formulas be run on doubles and reasoned
about over any other arithmetic.

## Main definitions

* `RealArithmetic α` — the four operations, a few constants and the elementary
  functions.
* the instance for `Float` — IEEE doubles, with the elementary functions of
  `Argand.Binary64`.
-/

namespace Argand

/-- The arithmetic that the formulas of this library use. -/
class RealArithmetic (α : Type) extends Add α, Sub α, Mul α, Neg α where
  /-- Zero; for doubles the positive one. -/
  zero : α
  /-- One. -/
  one : α
  /-- One half. -/
  half : α
  /-- The angle of one degree in radians. -/
  degree : α
  /-- The result of a calculation that has none. -/
  undefined : α
  /-- Whether a number is zero, of either sign. -/
  isZero : α → Bool
  /-- `hypot x y` is the distance of `(x, y)` from the origin. -/
  hypot : α → α → α
  /-- `angle y x` is the angle of `(x, y)`. -/
  angle : α → α → α
  /-- The natural logarithm. -/
  log : α → α
  /-- The exponential function. -/
  exp : α → α
  /-- The cosine. -/
  cos : α → α
  /-- The sine. -/
  sin : α → α

/-- Doubles. -/
instance : RealArithmetic Float where
  zero := 0
  one := 1
  half := 0.5
  degree := Binary64.pi / 180
  undefined := Binary64.undefined
  isZero x := x == 0
  hypot := Binary64.hypot
  angle := Binary64.angle
  log := Binary64.log
  exp := Binary64.exp
  cos := Binary64.cos
  sin := Binary64.sin

end Argand
