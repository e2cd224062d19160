import Argand.Proofs.ExactArithmetic

/-!
# The principal branch

Over the real numbers, logarithm, exponential, power, quotient and root are those of analysis, on
the principal branch, so they undo one another where they should.  The quotient and the root are
powers, and a power takes the logarithm of its base, so a base at the origin is looked at apart.

## Main results

* `toComplex_exp`, `toComplex_ln`, `toComplex_raise`, `toComplex_div` — the functions of analysis.
* `sqrt_mul_self` — a root is squared to its number.
* `sqrt_re_nonneg`, `sqrt_im_nonneg` — and lies in the right half-plane.
* `principal_branch_laws` — **exact arithmetic is consistent**: each of these functions undoes
  what it should.
-/

namespace Argand.ComplexNumber

open RealArithmetic

section Laws

variable [OpenValues]

/-! ### Exponential and logarithm -/

/-- The exponential of analysis. -/
@[simp] theorem toComplex_exp (z : ComplexNumber ℝ) :
    z.exp.toComplex = Complex.exp z.toComplex := by
  rw [exp, toComplex_ofPolar, exp_real, Complex.ofReal_exp, ← Complex.exp_add]
  exact congrArg Complex.exp (Complex.re_add_im z.toComplex)

/-- The principal logarithm of analysis, off the origin. -/
theorem toComplex_ln {z : ComplexNumber ℝ} (hz : z ≠ ofReal 0) :
    z.ln.toComplex = Complex.log z.toComplex := by
  have hpos : 0 < z.radius := by
    rw [radius_eq_norm, norm_pos_iff]
    exact toComplex_ne_zero_iff.mpr hz
  apply Complex.ext
  · rw [re_toComplex, ln, radius_toPolar, log_of_pos hpos, radius_eq_norm, Complex.log_re]
  · rw [im_toComplex, ln, angle_toPolar, Complex.log_im]

/-- The exponential undoes the logarithm. -/
theorem exp_ln {z : ComplexNumber ℝ} (hz : z ≠ ofReal 0) : z.ln.exp = z := by
  rw [← toComplex_inj, toComplex_exp, toComplex_ln hz, Complex.exp_log]
  exact toComplex_ne_zero_iff.mpr hz

/-! ### Powers -/

/-- A power is the exponential of a multiple of the logarithm. -/
theorem raise_eq_exp {z : ComplexNumber ℝ} (hz : z ≠ ofReal 0) (w : ComplexNumber ℝ) :
    z.raise w = (w.mul z.ln).exp := by
  have hradius : isZero z.radius = false := by
    rw [Bool.eq_false_iff, ne_eq, isZero_radius_iff]
    exact hz
  rw [raise, hradius]
  rfl

/-- The powers of the origin are zero, but for the exponent zero. -/
theorem raise_origin {w : ComplexNumber ℝ} (hw : w ≠ ofReal 0) :
    (ofReal 0 : ComplexNumber ℝ).raise w = ofReal 0 := by
  refine raise_of_isZero_radius (isZero_radius_iff.mpr rfl) ?_
  rw [Bool.eq_false_iff, ne_eq, isZero_radius_iff]
  exact hw

/-- The principal power of analysis, off the origin. -/
theorem toComplex_raise {z : ComplexNumber ℝ} (hz : z ≠ ofReal 0) (w : ComplexNumber ℝ) :
    (z.raise w).toComplex = z.toComplex ^ w.toComplex := by
  have hne : z.toComplex ≠ 0 := toComplex_ne_zero_iff.mpr hz
  rw [raise_eq_exp hz, toComplex_exp, toComplex_mul, toComplex_ln hz,
    Complex.cpow_def_of_ne_zero hne, mul_comm]

/-! ### Quotients -/

/-- The quotient of analysis, but by the origin. -/
theorem toComplex_div (z : ComplexNumber ℝ) {w : ComplexNumber ℝ} (hw : w ≠ ofReal 0) :
    (z.div w).toComplex = z.toComplex / w.toComplex := by
  have hradius : ¬isZero w.radius = true := isZero_radius_iff.not.mpr hw
  have hminus : (ofReal (-one) : ComplexNumber ℝ).toComplex = -1 := by simp
  rw [div, if_neg hradius, toComplex_mul, toComplex_raise hw, hminus, Complex.cpow_neg_one,
    div_eq_mul_inv]

/-- What is divided and multiplied by the same number stays as it is. -/
theorem div_mul_cancel (z : ComplexNumber ℝ) {w : ComplexNumber ℝ} (hw : w ≠ ofReal 0) :
    (z.div w).mul w = z := by
  have hne : w.toComplex ≠ 0 := toComplex_ne_zero_iff.mpr hw
  rw [← toComplex_inj, toComplex_mul, toComplex_div z hw, div_mul_cancel₀ _ hne]

/-! ### Roots -/

/-- A half is not the exponent zero. -/
theorem ofReal_half_ne_origin : (ofReal half : ComplexNumber ℝ) ≠ ofReal 0 := by
  simp [ofReal]

/-- The root of the origin. -/
theorem sqrt_origin : (ofReal 0 : ComplexNumber ℝ).sqrt = ofReal 0 :=
  raise_origin ofReal_half_ne_origin

/-- The root halves the angle. -/
theorem sqrt_eq_ofPolar {z : ComplexNumber ℝ} (hz : z ≠ ofReal 0) :
    z.sqrt = ofPolar (Real.exp (1 / 2 * log z.radius)) (z.toComplex.arg / 2) := by
  rw [sqrt, raise_eq_exp hz, exp, ← angle_toPolar]
  congr 1
  · simp [ln]
  · rw [mul_im, ofReal_re, ofReal_im, half_real, zero_real, zero_mul, zero_add, ln]
    ring

/-- A root is squared to its number. -/
theorem sqrt_mul_self (z : ComplexNumber ℝ) : z.sqrt.mul z.sqrt = z := by
  by_cases hz : z = ofReal 0
  · rw [hz, sqrt_origin, ← toComplex_inj]
    simp
  · -- both exponents are one half
    have hne : z.toComplex ≠ 0 := toComplex_ne_zero_iff.mpr hz
    have hhalf : (ofReal half : ComplexNumber ℝ).toComplex = 1 / 2 := by simp
    rw [← toComplex_inj, toComplex_mul, sqrt, toComplex_raise hz, hhalf,
      ← Complex.cpow_add _ _ hne, add_halves, Complex.cpow_one]

/-- A root lies in the right half-plane. -/
theorem sqrt_re_nonneg (z : ComplexNumber ℝ) : 0 ≤ z.sqrt.re := by
  by_cases hz : z = ofReal 0
  · rw [hz, sqrt_origin]
    exact le_rfl
  · have harg := Complex.arg_mem_Ioc z.toComplex
    have hcos : 0 ≤ Real.cos (z.toComplex.arg / 2) :=
      Real.cos_nonneg_of_mem_Icc ⟨by linarith [harg.1], by linarith [harg.2]⟩
    rw [sqrt_eq_ofPolar hz]
    exact mul_nonneg (Real.exp_pos _).le hcos

/-- A root on the edge of the right half-plane lies on its upper half. -/
theorem sqrt_im_nonneg {z : ComplexNumber ℝ} (h : z.sqrt.re = 0) : 0 ≤ z.sqrt.im := by
  by_cases hz : z = ofReal 0
  · rw [hz, sqrt_origin]
    exact le_rfl
  · have harg := Complex.arg_mem_Ioc z.toComplex
    rw [sqrt_eq_ofPolar hz] at h ⊢
    have hcos : Real.cos (z.toComplex.arg / 2) = 0 :=
      (mul_eq_zero.mp h).resolve_left (Real.exp_pos _).ne'
    -- between the quarter turns the cosine is positive, so the angle is not negative
    have hangle : 0 ≤ z.toComplex.arg / 2 := by
      by_contra hneg
      have hpos : 0 < Real.cos (z.toComplex.arg / 2) :=
        Real.cos_pos_of_mem_Ioo ⟨by linarith [harg.1], by linarith [Real.pi_pos]⟩
      exact hpos.ne' hcos
    have hsin : 0 ≤ Real.sin (z.toComplex.arg / 2) :=
      Real.sin_nonneg_of_nonneg_of_le_pi hangle (by linarith [harg.2, Real.pi_pos])
    exact mul_nonneg (Real.exp_pos _).le hsin

/-! ### The laws together -/

/-- **Exact arithmetic is consistent on the principal branch.**  Polar form loses nothing; off the
origin the exponential undoes the logarithm, and a power is the exponential of a multiple of the
logarithm; the powers of the origin are zero, but for the exponent zero; what is divided and
multiplied by the same number stays as it is; and a root is squared to its number, and lies in the
right half-plane. -/
theorem principal_branch_laws (z w a b : ComplexNumber ℝ) :
    ofPolar z.toPolar.radius z.toPolar.angle = z ∧
    (z ≠ ofReal 0 → z.ln.exp = z ∧ z.raise w = (w.mul z.ln).exp) ∧
    (w ≠ ofReal 0 → (ofReal 0 : ComplexNumber ℝ).raise w = ofReal 0) ∧
    (b ≠ ofReal 0 → (a.div b).mul b = a) ∧
    z.sqrt.mul z.sqrt = z ∧ 0 ≤ z.sqrt.re ∧ (z.sqrt.re = 0 → 0 ≤ z.sqrt.im) := by
  refine ⟨ofPolar_toPolar z, ?_, raise_origin, div_mul_cancel a, sqrt_mul_self z,
    sqrt_re_nonneg z, sqrt_im_nonneg⟩
  intro hz
  exact ⟨exp_ln hz, raise_eq_exp hz w⟩

end Laws

/-- On the branch cut, where the root of `-1` has no real part. -/
theorem principal_branch_laws_on_cut : ∃ _ : OpenValues,
    let z : ComplexNumber ℝ := ⟨-1, 0⟩
    z ≠ ofReal 0 ∧ (i : ComplexNumber ℝ) ≠ ofReal 0 ∧ z.sqrt.re = 0 ∧
      ofPolar z.toPolar.radius z.toPolar.angle = z ∧ z.ln.exp = z ∧
      z.raise i = (i.mul z.ln).exp ∧ (ofReal 0 : ComplexNumber ℝ).raise i = ofReal 0 ∧
      (z.div i).mul i = z ∧ z.sqrt.mul z.sqrt = z ∧ 0 ≤ z.sqrt.im := by
  let : OpenValues := ⟨fun _ => 0, 0, 0⟩
  refine ⟨this, ?_⟩
  intro z
  have hz : z ≠ ofReal 0 := by simp [z, ofReal]
  have hi : (i : ComplexNumber ℝ) ≠ ofReal 0 := by simp [i, ofImaginary, ofReal]
  have harg : z.toComplex.arg = Real.pi := Complex.arg_eq_pi_iff.mpr ⟨by simp [z], rfl⟩
  have hedge : z.sqrt.re = 0 := by
    rw [sqrt_eq_ofPolar hz, harg]
    simp [ofPolar]
  obtain ⟨hpolar, hln, hpower, hdiv, hsquare, -, him⟩ := principal_branch_laws z i z i
  exact ⟨hz, hi, hedge, hpolar, (hln hz).1, (hln hz).2, hpower hi, hdiv hi, hsquare, him hedge⟩

end Argand.ComplexNumber
