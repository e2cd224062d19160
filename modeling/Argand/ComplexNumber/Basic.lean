import Argand.RealArithmetic

/-!
# Complex numbers

Complex numbers over any arithmetic of real numbers, in rectangular and polar
form, with the operations that need no logarithm.

## Main definitions

* `ComplexNumber α` — a real and an imaginary part.
* `ofReal`, `i` — real numbers and the imaginary unit.
* `add`, `sub`, `mul`, `neg` — arithmetic on the parts.
* `Polar`, `toPolar`, `ofPolar` — polar form; the origin has angle zero.
* `abs` — the distance from the origin, as a complex number.
* `isClose tolerance` — both parts agree up to a tolerance.
-/

namespace Argand

/-- A complex number in rectangular form. -/
structure ComplexNumber (α : Type) where
  re : α
  im : α
  deriving DecidableEq, Repr

/-- A complex number in polar form. -/
structure Polar (α : Type) where
  radius : α
  angle : α
  deriving DecidableEq, Repr

/-- Complex numbers are compared part by part; over doubles the two zeros are
equal and an undefined part equals nothing. -/
instance {α : Type} [BEq α] : BEq (ComplexNumber α) where
  beq z w := z.re == w.re && z.im == w.im

namespace ComplexNumber

open RealArithmetic

variable {α : Type} [RealArithmetic α]

/-- A real number. -/
def ofReal (x : α) : ComplexNumber α := ⟨x, zero⟩

/-- An imaginary number. -/
def ofImaginary (y : α) : ComplexNumber α := ⟨zero, y⟩

/-- The imaginary unit. -/
def i : ComplexNumber α := ofImaginary one

/-- The number whose parts are both undefined. -/
def undefined : ComplexNumber α := ⟨RealArithmetic.undefined, RealArithmetic.undefined⟩

/-! ### Arithmetic on the parts -/

/-- The sum. -/
def add (z w : ComplexNumber α) : ComplexNumber α := ⟨z.re + w.re, z.im + w.im⟩

/-- The difference. -/
def sub (z w : ComplexNumber α) : ComplexNumber α := ⟨z.re - w.re, z.im - w.im⟩

/-- The product. -/
def mul (z w : ComplexNumber α) : ComplexNumber α :=
  ⟨z.re * w.re - z.im * w.im, z.im * w.re + z.re * w.im⟩

/-- The negation; it changes the sign of zeros too. -/
def neg (z : ComplexNumber α) : ComplexNumber α := ⟨-z.re, -z.im⟩

/-! ### Polar form -/

/-- The polar form.  The origin is taken at angle zero, whatever the signs of its
parts. -/
def toPolar (z : ComplexNumber α) : Polar α :=
  ⟨hypot z.re z.im, if isZero z.re && isZero z.im then zero else RealArithmetic.angle z.im z.re⟩

/-- The complex number with a given radius and angle. -/
def ofPolar (radius angle : α) : ComplexNumber α := ⟨radius * cos angle, radius * sin angle⟩

/-- The distance from the origin. -/
def radius (z : ComplexNumber α) : α := z.toPolar.radius

/-- The distance from the origin, as a complex number. -/
def abs (z : ComplexNumber α) : ComplexNumber α := ofReal z.radius

/-! ### One equation for each operation -/

@[simp] theorem ofReal_re (x : α) : (ofReal x).re = x := rfl

@[simp] theorem ofReal_im (x : α) : (ofReal x).im = zero := rfl

@[simp] theorem ofImaginary_re (y : α) : (ofImaginary y).re = zero := rfl

@[simp] theorem ofImaginary_im (y : α) : (ofImaginary y).im = y := rfl

@[simp] theorem add_re (z w : ComplexNumber α) : (z.add w).re = z.re + w.re := rfl

@[simp] theorem add_im (z w : ComplexNumber α) : (z.add w).im = z.im + w.im := rfl

@[simp] theorem sub_re (z w : ComplexNumber α) : (z.sub w).re = z.re - w.re := rfl

@[simp] theorem sub_im (z w : ComplexNumber α) : (z.sub w).im = z.im - w.im := rfl

@[simp] theorem mul_re (z w : ComplexNumber α) :
    (z.mul w).re = z.re * w.re - z.im * w.im := rfl

@[simp] theorem mul_im (z w : ComplexNumber α) :
    (z.mul w).im = z.im * w.re + z.re * w.im := rfl

@[simp] theorem neg_re (z : ComplexNumber α) : z.neg.re = -z.re := rfl

@[simp] theorem neg_im (z : ComplexNumber α) : z.neg.im = -z.im := rfl

@[simp] theorem radius_toPolar (z : ComplexNumber α) : z.toPolar.radius = z.radius := rfl

theorem radius_eq_hypot (z : ComplexNumber α) : z.radius = hypot z.re z.im := rfl

@[simp] theorem abs_re (z : ComplexNumber α) : z.abs.re = z.radius := rfl

@[simp] theorem abs_im (z : ComplexNumber α) : z.abs.im = zero := rfl

/-! ### Comparison over doubles -/

/-- Both parts agree up to an absolute tolerance.  Undefined or infinite
differences are not close. -/
def isClose (tolerance : Float) (z w : ComplexNumber Float) : Bool :=
  (z.re - w.re).abs ≤ tolerance && (z.im - w.im).abs ≤ tolerance

/-- The tolerance taken when none is given. -/
def defaultTolerance : Float := 1e-9

/-- The different numbers of a list, the first of several equal ones. -/
def distinct (zs : List (ComplexNumber Float)) : List (ComplexNumber Float) := zs.eraseDups

end ComplexNumber

end Argand
