import Argand.ComplexNumber.Basic

/-!
# Functions of a complex number

Powers, logarithm, exponential and the circular functions with their inverses.
All of them go through the polar form, so that every branch cut is that of the
principal logarithm: it lies along the negative real axis, and a point on the
axis belongs to the side that the sign of its zero imaginary part tells.

## Main definitions

* `raise base exponent` — the principal power; a zero base gives zero unless the
  exponent is zero.
* `div` — the product with the power `-1`; undefined for a zero divisor.
* `ln`, `exp`, `sqrt` — the principal logarithm, the exponential, the principal
  root.
* `sin`, `cos`, `tan` — from exponentials of `iz` and `-iz`.
* `asin`, `acos`, `atan` — from logarithms.
-/

namespace Argand.ComplexNumber

open RealArithmetic

variable {α : Type} [RealArithmetic α]

/-- The power, from the principal logarithm of the base.  A base at the origin
has none, and its powers are zero for every exponent but zero. -/
def raise (base exponent : ComplexNumber α) : ComplexNumber α :=
  if isZero base.radius && !isZero exponent.radius then ofReal zero
  else
    let p := base.toPolar
    let logRadius := log p.radius
    ofPolar (RealArithmetic.exp (exponent.re * logRadius - exponent.im * p.angle))
      (exponent.im * logRadius + exponent.re * p.angle)

/-- The quotient; undefined for a divisor at the origin. -/
def div (z w : ComplexNumber α) : ComplexNumber α :=
  if isZero w.radius then undefined else z.mul (w.raise (ofReal (-one)))

/-- The principal logarithm. -/
def ln (z : ComplexNumber α) : ComplexNumber α :=
  ⟨log z.toPolar.radius, z.toPolar.angle⟩

/-- The exponential. -/
def exp (z : ComplexNumber α) : ComplexNumber α := ofPolar (RealArithmetic.exp z.re) z.im

/-- The principal square root. -/
def sqrt (z : ComplexNumber α) : ComplexNumber α := z.raise (ofReal half)

/-! ### Circular functions -/

/-- `sin z = (e^{iz} - e^{-iz}) / 2i`. -/
def sin (z : ComplexNumber α) : ComplexNumber α :=
  let iz := i.mul z
  (iz.exp.sub iz.neg.exp).mul (ofImaginary (-half))

/-- `cos z = (e^{iz} + e^{-iz}) / 2`. -/
def cos (z : ComplexNumber α) : ComplexNumber α :=
  let iz := i.mul z
  (iz.exp.add iz.neg.exp).mul (ofReal half)

/-- `tan z = sin z / cos z`. -/
def tan (z : ComplexNumber α) : ComplexNumber α := z.sin.div z.cos

/-- `√(1 - z²)`, the other leg of a right triangle with hypotenuse one. -/
def coLeg (z : ComplexNumber α) : ComplexNumber α := ((ofReal one).sub (z.mul z)).sqrt

/-- `asin z = -i ln (iz + √(1 - z²))`. -/
def asin (z : ComplexNumber α) : ComplexNumber α :=
  (ofImaginary (-one)).mul ((i.mul z).add z.coLeg).ln

/-- `acos z = -i ln (z + i √(1 - z²))`. -/
def acos (z : ComplexNumber α) : ComplexNumber α :=
  (ofImaginary (-one)).mul (z.add (i.mul z.coLeg)).ln

/-- `atan z = i/2 (ln (1 - iz) - ln (1 + iz))`. -/
def atan (z : ComplexNumber α) : ComplexNumber α :=
  let iz := i.mul z
  (ofImaginary half).mul (((ofReal one).sub iz).ln.sub ((ofReal one).add iz).ln)

/-! ### Special points -/

/-- A power of a number at the origin is zero, unless the exponent is zero. -/
theorem raise_of_isZero_radius {base exponent : ComplexNumber α} (hb : isZero base.radius)
    (he : isZero exponent.radius = false) : base.raise exponent = ofReal zero := by
  simp [raise, hb, he]

/-- Nothing is divided by a number at the origin. -/
theorem div_of_isZero_radius (z : ComplexNumber α) {w : ComplexNumber α} (h : isZero w.radius) :
    z.div w = undefined := by
  simp [div, h]

/- The sign of an imaginary zero tells on which side of the cut a negative real
number lies. -/
example : ln (⟨-1, 0⟩ : ComplexNumber Float) = ⟨0, Binary64.halfTurn⟩ ∧
    ln (⟨-1, -0.0⟩ : ComplexNumber Float) = ⟨0, -Binary64.halfTurn⟩ := by decide +kernel

end Argand.ComplexNumber
