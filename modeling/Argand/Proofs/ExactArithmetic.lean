import Argand.ComplexNumber.Functions
import Mathlib

/-!
# Exact arithmetic

The formulas of this library over the real numbers, where nothing is rounded: a complex number
is then one of Mathlib's, with the same sum, product, distance from the origin and angle.

A logarithm exists for positive numbers only, and an angle for points off the origin.  What the
formulas would get elsewhere is left open, so nothing that is proved here can depend on it.

## Main definitions

* `OpenValues` — some values where exact arithmetic has none.
* the instance of `RealArithmetic` for real numbers.
* `ComplexNumber.toComplex z` — the complex number with the same parts.

## Main results

* `ComplexNumber.radius_eq_norm`, `ComplexNumber.angle_toPolar` — polar form is norm and argument.
* `ComplexNumber.ofPolar_toPolar` — **polar form loses nothing.**
-/

namespace Argand

/-- Some values where exact arithmetic has none. -/
class OpenValues where
  /-- The logarithm of a number that is not positive. -/
  log : ℝ → ℝ
  /-- The angle of the origin. -/
  angle : ℝ
  /-- The result of a calculation that has none. -/
  undefined : ℝ

/-- Real numbers, with the functions of analysis.  An angle is in `(-π, π]`. -/
noncomputable instance [OpenValues] : RealArithmetic ℝ where
  zero := 0
  one := 1
  half := (1 / 2 : ℚ)
  degree := Real.pi / 180
  undefined := OpenValues.undefined
  isZero x := decide (x = 0)
  hypot x y := √(x ^ 2 + y ^ 2)
  angle y x := if x = 0 ∧ y = 0 then OpenValues.angle else Complex.arg ⟨x, y⟩
  log x := if 0 < x then Real.log x else OpenValues.log x
  exp := Real.exp
  cos := Real.cos
  sin := Real.sin

namespace RealArithmetic

variable [OpenValues]

@[simp] theorem zero_real : (zero : ℝ) = 0 := rfl

@[simp] theorem one_real : (one : ℝ) = 1 := rfl

@[simp] theorem half_real : (half : ℝ) = 1 / 2 := by
  change ((1 / 2 : ℚ) : ℝ) = 1 / 2
  norm_num

@[simp] theorem degree_real : (degree : ℝ) = Real.pi / 180 := rfl

@[simp] theorem isZero_real (x : ℝ) : isZero x = decide (x = 0) := rfl

theorem hypot_real (x y : ℝ) : hypot x y = √(x ^ 2 + y ^ 2) := rfl

@[simp] theorem exp_real (x : ℝ) : exp x = Real.exp x := rfl

@[simp] theorem cos_real (x : ℝ) : cos x = Real.cos x := rfl

@[simp] theorem sin_real (x : ℝ) : sin x = Real.sin x := rfl

theorem log_of_pos {x : ℝ} (h : 0 < x) : log x = Real.log x := if_pos h

theorem angle_of_ne {x y : ℝ} (h : ¬(x = 0 ∧ y = 0)) : angle y x = Complex.arg ⟨x, y⟩ := if_neg h

end RealArithmetic

namespace ComplexNumber

open RealArithmetic

/-- The complex number with the same parts. -/
def toComplex (z : ComplexNumber ℝ) : ℂ := ⟨z.re, z.im⟩

@[simp] theorem re_toComplex (z : ComplexNumber ℝ) : z.toComplex.re = z.re := rfl

@[simp] theorem im_toComplex (z : ComplexNumber ℝ) : z.toComplex.im = z.im := rfl

/-- A complex number is its parts. -/
@[simp] theorem toComplex_inj {z w : ComplexNumber ℝ} : z.toComplex = w.toComplex ↔ z = w := by
  obtain ⟨x, y⟩ := z
  obtain ⟨x', y'⟩ := w
  simp [toComplex]

variable [OpenValues]

/-! ### Arithmetic -/

@[simp] theorem toComplex_ofReal (x : ℝ) : (ofReal x).toComplex = x := rfl

@[simp] theorem toComplex_ofImaginary (y : ℝ) : (ofImaginary y).toComplex = y * Complex.I := by
  apply Complex.ext
  · simp
  · simp

@[simp] theorem toComplex_i : (i : ComplexNumber ℝ).toComplex = Complex.I := rfl

@[simp] theorem toComplex_add (z w : ComplexNumber ℝ) :
    (z.add w).toComplex = z.toComplex + w.toComplex := rfl

@[simp] theorem toComplex_sub (z w : ComplexNumber ℝ) :
    (z.sub w).toComplex = z.toComplex - w.toComplex := by
  apply Complex.ext
  · simp
  · simp

@[simp] theorem toComplex_neg (z : ComplexNumber ℝ) : z.neg.toComplex = -z.toComplex := rfl

@[simp] theorem toComplex_mul (z w : ComplexNumber ℝ) :
    (z.mul w).toComplex = z.toComplex * w.toComplex := by
  apply Complex.ext
  · simp
  · rw [im_toComplex, mul_im, Complex.mul_im, add_comm]
    rfl

/-- The origin is where both parts are zero. -/
theorem toComplex_eq_zero_iff {z : ComplexNumber ℝ} : z.toComplex = 0 ↔ z = ofReal 0 := by
  rw [← toComplex_inj, toComplex_ofReal, Complex.ofReal_zero]

theorem toComplex_ne_zero_iff {z : ComplexNumber ℝ} : z.toComplex ≠ 0 ↔ z ≠ ofReal 0 :=
  toComplex_eq_zero_iff.not

/-! ### Polar form -/

/-- The distance from the origin is the norm. -/
theorem radius_eq_norm (z : ComplexNumber ℝ) : z.radius = ‖z.toComplex‖ := by
  rw [radius_eq_hypot, hypot_real, Complex.norm_eq_sqrt_sq_add_sq]
  rfl

/-- Only the origin has no distance from itself. -/
theorem isZero_radius_iff {z : ComplexNumber ℝ} : isZero z.radius = true ↔ z = ofReal 0 := by
  rw [isZero_real, decide_eq_true_iff, radius_eq_norm, norm_eq_zero, toComplex_eq_zero_iff]

/-- The angle is the argument, at the origin too. -/
theorem angle_toPolar (z : ComplexNumber ℝ) : z.toPolar.angle = z.toComplex.arg := by
  by_cases h : z.re = 0 ∧ z.im = 0
  · have hz : z.toComplex = 0 := Complex.ext h.1 h.2
    simp [toPolar, h, hz]
  · have hz : (isZero z.re && isZero z.im) = false := by simpa using h
    rw [toPolar, hz]
    exact angle_of_ne h

/-- A number in polar form. -/
theorem toComplex_ofPolar (r t : ℝ) :
    (ofPolar r t).toComplex = r * Complex.exp (t * Complex.I) := by
  apply Complex.ext
  · rw [Complex.re_ofReal_mul, Complex.exp_ofReal_mul_I_re]
    rfl
  · rw [Complex.im_ofReal_mul, Complex.exp_ofReal_mul_I_im]
    rfl

/-- **Polar form loses nothing.** -/
theorem ofPolar_toPolar (z : ComplexNumber ℝ) : ofPolar z.toPolar.radius z.toPolar.angle = z := by
  rw [← toComplex_inj, toComplex_ofPolar, radius_toPolar, radius_eq_norm, angle_toPolar,
    Complex.norm_mul_exp_arg_mul_I]

end ComplexNumber

end Argand
