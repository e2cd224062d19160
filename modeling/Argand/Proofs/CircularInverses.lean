import Argand.Proofs.PrincipalBranch

/-!
# Inverses of the circular functions

Over the real numbers, sine, cosine and tangent are those of analysis, and `asin`, `acos` and `atan`
are right inverses of them on the whole plane, but for the two points that no tangent reaches.

The logarithm for `asin z` is taken of `iz + √(1 - z²)`.  Its product with `√(1 - z²) - iz` is one,
so neither is zero; their real parts have the same sign and add up to twice that of the root, so
neither lies on the left of the imaginary axis.  The point for `acos z` is `i` over that for
`asin z`, and as no branch cut lies between the two, their logarithms add up to that of `i`.

## Main definitions

* `asinPoint z`, `acosPoint z` — the points whose logarithms are taken.

## Main results

* `toComplex_sin`, `toComplex_cos`, `toComplex_tan` — the functions of analysis.
* `sin_asin`, `cos_acos`, `tan_atan` — right inverses.
* `asin_add_acos` — the two angles beside the right one add up to it.
* `circular_inverses` — **the inverses are right on the whole plane.**
-/

namespace Argand.ComplexNumber

open RealArithmetic

section Points

variable {α : Type} [RealArithmetic α]

/-- The point whose logarithm is taken for the arcsine. -/
def asinPoint (z : ComplexNumber α) : ComplexNumber α := (i.mul z).add z.coLeg

/-- The point whose logarithm is taken for the arccosine. -/
def acosPoint (z : ComplexNumber α) : ComplexNumber α := z.add (i.mul z.coLeg)

theorem asin_eq_ln (z : ComplexNumber α) : z.asin = (ofImaginary (-one)).mul z.asinPoint.ln := rfl

theorem acos_eq_ln (z : ComplexNumber α) : z.acos = (ofImaginary (-one)).mul z.acosPoint.ln := rfl

end Points

section Inverses

variable [OpenValues]

/-! ### The functions of analysis -/

/-- The sine of analysis. -/
@[simp] theorem toComplex_sin (z : ComplexNumber ℝ) :
    z.sin.toComplex = Complex.sin z.toComplex := by
  simp only [sin, toComplex_mul, toComplex_sub, toComplex_exp, toComplex_neg, toComplex_i,
    toComplex_ofImaginary, half_real, Complex.sin]
  rw [mul_comm Complex.I, neg_mul]
  push_cast
  ring

/-- The cosine of analysis. -/
@[simp] theorem toComplex_cos (z : ComplexNumber ℝ) :
    z.cos.toComplex = Complex.cos z.toComplex := by
  simp only [cos, toComplex_mul, toComplex_add, toComplex_exp, toComplex_neg, toComplex_i,
    toComplex_ofReal, half_real, Complex.cos]
  rw [mul_comm Complex.I, neg_mul]
  push_cast
  ring

/-- The tangent of analysis, but where the cosine is zero. -/
theorem toComplex_tan {z : ComplexNumber ℝ} (h : z.cos ≠ ofReal 0) :
    z.tan.toComplex = Complex.tan z.toComplex := by
  rw [tan, toComplex_div _ h, toComplex_sin, toComplex_cos, Complex.tan]

/-! ### The points of the logarithms -/

/-- The square of the other leg. -/
theorem toComplex_coLeg_sq (z : ComplexNumber ℝ) :
    z.coLeg.toComplex ^ 2 = 1 - z.toComplex ^ 2 := by
  rw [coLeg, sq, sq, ← toComplex_mul, sqrt_mul_self]
  simp

theorem toComplex_asinPoint (z : ComplexNumber ℝ) :
    z.asinPoint.toComplex = Complex.I * z.toComplex + z.coLeg.toComplex := by
  simp [asinPoint]

theorem asinPoint_mul (z : ComplexNumber ℝ) :
    z.asinPoint.toComplex * (z.coLeg.toComplex - Complex.I * z.toComplex) = 1 := by
  rw [toComplex_asinPoint]
  linear_combination z.toComplex_coLeg_sq - z.toComplex ^ 2 * Complex.I_sq

theorem inv_asinPoint (z : ComplexNumber ℝ) :
    z.asinPoint.toComplex⁻¹ = z.coLeg.toComplex - Complex.I * z.toComplex :=
  inv_eq_of_mul_eq_one_right z.asinPoint_mul

theorem asinPoint_ne_origin (z : ComplexNumber ℝ) : z.asinPoint ≠ ofReal 0 := by
  rw [← toComplex_ne_zero_iff]
  exact left_ne_zero_of_mul_eq_one z.asinPoint_mul

/-- The point for the arccosine is a quarter turn from the inverse of that for the arcsine. -/
theorem toComplex_acosPoint (z : ComplexNumber ℝ) :
    z.acosPoint.toComplex = Complex.I * z.asinPoint.toComplex⁻¹ := by
  rw [inv_asinPoint, acosPoint, toComplex_add, toComplex_mul, toComplex_i]
  linear_combination z.toComplex * Complex.I_sq

theorem acosPoint_ne_origin (z : ComplexNumber ℝ) : z.acosPoint ≠ ofReal 0 := by
  have h := toComplex_ne_zero_iff.mpr z.asinPoint_ne_origin
  rw [← toComplex_ne_zero_iff, toComplex_acosPoint]
  exact mul_ne_zero Complex.I_ne_zero (inv_ne_zero h)

/-- The point for the arcsine does not lie on the left of the imaginary axis. -/
theorem asinPoint_re_nonneg (z : ComplexNumber ℝ) : 0 ≤ z.asinPoint.toComplex.re := by
  have hsum : z.asinPoint.toComplex.re + z.asinPoint.toComplex⁻¹.re = 2 * z.coLeg.re := by
    rw [inv_asinPoint, toComplex_asinPoint]
    simp only [Complex.add_re, Complex.sub_re, Complex.mul_re, Complex.I_re, Complex.I_im,
      re_toComplex]
    ring
  have hroot : 0 ≤ z.coLeg.re := sqrt_re_nonneg _
  -- a number and its inverse have real parts of the same sign
  by_contra hneg
  have hinv : z.asinPoint.toComplex⁻¹.re ≤ 0 := by
    rw [Complex.inv_re]
    exact div_nonpos_of_nonpos_of_nonneg (not_le.mp hneg).le (Complex.normSq_nonneg _)
  linarith

theorem inv_asinPoint_re_nonneg (z : ComplexNumber ℝ) : 0 ≤ z.asinPoint.toComplex⁻¹.re := by
  rw [Complex.inv_re]
  exact div_nonneg z.asinPoint_re_nonneg (Complex.normSq_nonneg _)

/-! ### Arcsine and arccosine -/

/-- What `asin` and `acos` do with the logarithm of a point. -/
theorem toComplex_mul_ln {p : ComplexNumber ℝ} (hp : p ≠ ofReal 0) :
    ((ofImaginary (-one)).mul p.ln).toComplex = -Complex.I * Complex.log p.toComplex := by
  rw [toComplex_mul, toComplex_ln hp]
  simp

/-- It is an angle that leads back to the point. -/
theorem exp_mul_ln {p : ComplexNumber ℝ} (hp : p ≠ ofReal 0) :
    Complex.exp (((ofImaginary (-one)).mul p.ln).toComplex * Complex.I) = p.toComplex := by
  have hlog : ((ofImaginary (-one)).mul p.ln).toComplex * Complex.I = Complex.log p.toComplex := by
    rw [toComplex_mul_ln hp]
    linear_combination -Complex.log p.toComplex * Complex.I_sq
  rw [hlog, Complex.exp_log (toComplex_ne_zero_iff.mpr hp)]

/-- The sine undoes the arcsine. -/
theorem sin_asin (z : ComplexNumber ℝ) : z.asin.sin = z := by
  have hexp := exp_mul_ln z.asinPoint_ne_origin
  rw [← asin_eq_ln] at hexp
  rw [← toComplex_inj, toComplex_sin, Complex.sin, neg_mul, Complex.exp_neg, hexp, inv_asinPoint,
    toComplex_asinPoint]
  linear_combination -z.toComplex * Complex.I_sq

/-- The cosine undoes the arccosine. -/
theorem cos_acos (z : ComplexNumber ℝ) : z.acos.cos = z := by
  have hexp := exp_mul_ln z.acosPoint_ne_origin
  rw [← acos_eq_ln] at hexp
  have hinv : z.acosPoint.toComplex⁻¹ = -Complex.I * z.asinPoint.toComplex := by
    rw [toComplex_acosPoint, mul_inv, inv_inv, Complex.inv_I]
  rw [← toComplex_inj, toComplex_cos, Complex.cos, neg_mul, Complex.exp_neg, hexp, hinv,
    toComplex_acosPoint, inv_asinPoint, toComplex_asinPoint]
  linear_combination -z.toComplex * Complex.I_sq

/-- No branch cut lies between the two points. -/
theorem log_acosPoint (z : ComplexNumber ℝ) : Complex.log z.acosPoint.toComplex =
    Real.pi / 2 * Complex.I - Complex.log z.asinPoint.toComplex := by
  have hne := toComplex_ne_zero_iff.mpr z.asinPoint_ne_origin
  have hleft : z.asinPoint.toComplex.arg ≠ Real.pi := by
    intro h
    exact absurd (Complex.arg_eq_pi_iff.mp h).1 z.asinPoint_re_nonneg.not_gt
  have hinv := abs_le.mp (Complex.abs_arg_le_pi_div_two_iff.mpr z.inv_asinPoint_re_nonneg)
  have hturn : Complex.I.arg + z.asinPoint.toComplex⁻¹.arg ∈ Set.Ioc (-Real.pi) Real.pi := by
    rw [Complex.arg_I]
    constructor
    · linarith [hinv.1, Real.pi_pos]
    · linarith [hinv.2]
  rw [toComplex_acosPoint, Complex.log_mul Complex.I_ne_zero (inv_ne_zero hne) hturn,
    Complex.log_I, Complex.log_inv _ hleft, sub_eq_add_neg]

/-- The two angles beside the right one add up to it. -/
theorem asin_add_acos (z : ComplexNumber ℝ) : z.asin.add z.acos = ofReal (Real.pi / 2) := by
  rw [← toComplex_inj, toComplex_add, asin_eq_ln, acos_eq_ln,
    toComplex_mul_ln z.asinPoint_ne_origin, toComplex_mul_ln z.acosPoint_ne_origin,
    log_acosPoint, toComplex_ofReal]
  push_cast
  linear_combination (-Real.pi / 2) * Complex.I_sq

/-! ### Arctangent -/

/-- The first logarithm for the arctangent is taken of zero at `-i` only. -/
theorem one_sub_i_mul_eq_origin_iff {z : ComplexNumber ℝ} :
    (ofReal one).sub (i.mul z) = ofReal 0 ↔ z = i.neg := by
  rw [← toComplex_inj, ← toComplex_inj]
  simp only [toComplex_sub, toComplex_ofReal, toComplex_mul, toComplex_i, toComplex_neg, one_real,
    Complex.ofReal_one, Complex.ofReal_zero]
  constructor
  · intro h
    linear_combination Complex.I * h + z.toComplex * Complex.I_sq
  · intro h
    linear_combination -Complex.I * h + Complex.I_sq

/-- The second logarithm for the arctangent is taken of zero at `i` only. -/
theorem one_add_i_mul_eq_origin_iff {z : ComplexNumber ℝ} :
    (ofReal one).add (i.mul z) = ofReal 0 ↔ z = i := by
  rw [← toComplex_inj, ← toComplex_inj]
  simp only [toComplex_add, toComplex_ofReal, toComplex_mul, toComplex_i, one_real,
    Complex.ofReal_one, Complex.ofReal_zero]
  constructor
  · intro h
    linear_combination -Complex.I * h + z.toComplex * Complex.I_sq
  · intro h
    linear_combination Complex.I * h + Complex.I_sq

/-- The exponential that the sine and the cosine of an arctangent are made of. -/
theorem exp_atan_sq {z : ComplexNumber ℝ} (hup : z ≠ i) (hdown : z ≠ i.neg) :
    Complex.exp (z.atan.toComplex * Complex.I) ^ 2 * (1 - Complex.I * z.toComplex) =
      1 + Complex.I * z.toComplex := by
  have hminus : (ofReal one).sub (i.mul z) ≠ ofReal 0 := one_sub_i_mul_eq_origin_iff.not.mpr hdown
  have hplus : (ofReal one).add (i.mul z) ≠ ofReal 0 := one_add_i_mul_eq_origin_iff.not.mpr hup
  have hatan : 2 * (z.atan.toComplex * Complex.I) =
      Complex.log (1 + Complex.I * z.toComplex) - Complex.log (1 - Complex.I * z.toComplex) := by
    rw [atan, toComplex_mul, toComplex_sub, toComplex_ln hminus, toComplex_ln hplus]
    simp only [toComplex_sub, toComplex_add, toComplex_ofReal, toComplex_ofImaginary, toComplex_mul,
      toComplex_i, one_real, half_real]
    push_cast
    linear_combination (Complex.log (1 - Complex.I * z.toComplex) -
      Complex.log (1 + Complex.I * z.toComplex)) * Complex.I_sq
  have hminus' : 1 - Complex.I * z.toComplex ≠ 0 := by simpa using toComplex_ne_zero_iff.mpr hminus
  have hplus' : 1 + Complex.I * z.toComplex ≠ 0 := by simpa using toComplex_ne_zero_iff.mpr hplus
  rw [← Complex.exp_nat_mul, Nat.cast_ofNat, hatan, Complex.exp_sub, Complex.exp_log hplus',
    Complex.exp_log hminus', div_mul_cancel₀ _ hminus']

/-- The cosine of an arctangent, up to a factor that the sine has too. -/
theorem mul_cos_atan {z : ComplexNumber ℝ} (hup : z ≠ i) (hdown : z ≠ i.neg) :
    Complex.exp (z.atan.toComplex * Complex.I) * (1 - Complex.I * z.toComplex) *
      Complex.cos z.atan.toComplex = 1 := by
  have hsq := exp_atan_sq hup hdown
  have hinv := mul_inv_cancel₀ (Complex.exp_ne_zero (z.atan.toComplex * Complex.I))
  rw [Complex.cos, neg_mul, Complex.exp_neg]
  linear_combination hsq / 2 + (1 - Complex.I * z.toComplex) / 2 * hinv

/-- The sine of an arctangent, up to a factor that the cosine has too. -/
theorem mul_sin_atan {z : ComplexNumber ℝ} (hup : z ≠ i) (hdown : z ≠ i.neg) :
    Complex.exp (z.atan.toComplex * Complex.I) * (1 - Complex.I * z.toComplex) *
      Complex.sin z.atan.toComplex = z.toComplex := by
  have hsq := exp_atan_sq hup hdown
  have hinv := mul_inv_cancel₀ (Complex.exp_ne_zero (z.atan.toComplex * Complex.I))
  rw [Complex.sin, neg_mul, Complex.exp_neg]
  linear_combination (1 - Complex.I * z.toComplex) * Complex.I / 2 * hinv - Complex.I / 2 * hsq -
    z.toComplex * Complex.I_sq

/-- The cosine of an arctangent is not zero. -/
theorem cos_atan_ne_origin {z : ComplexNumber ℝ} (hup : z ≠ i) (hdown : z ≠ i.neg) :
    z.atan.cos ≠ ofReal 0 := by
  rw [← toComplex_ne_zero_iff, toComplex_cos]
  exact right_ne_zero_of_mul_eq_one (mul_cos_atan hup hdown)

/-- The tangent undoes the arctangent. -/
theorem tan_atan {z : ComplexNumber ℝ} (hup : z ≠ i) (hdown : z ≠ i.neg) : z.atan.tan = z := by
  have hcos := mul_cos_atan hup hdown
  have hne := left_ne_zero_of_mul_eq_one hcos
  rw [← toComplex_inj, toComplex_tan (cos_atan_ne_origin hup hdown), Complex.tan,
    ← mul_div_mul_left _ _ hne, hcos, mul_sin_atan hup hdown, div_one]

/-! ### The whole plane -/

/-- **The inverses of the circular functions are right on the whole plane.**  Sine and cosine undo
arcsine and arccosine, which add up to a quarter turn; and the tangent undoes the arctangent
wherever no logarithm is taken of zero, which is everywhere but at `i` and `-i`, and there it does
not divide by zero. -/
theorem circular_inverses (z : ComplexNumber ℝ) :
    z.asin.sin = z ∧ z.acos.cos = z ∧ z.asin.add z.acos = ofReal (Real.pi / 2) ∧
    (z ≠ i → z ≠ i.neg → z.atan.cos ≠ ofReal 0 ∧ z.atan.tan = z) ∧
    ((ofReal one).sub (i.mul z) = ofReal 0 ↔ z = i.neg) ∧
    ((ofReal one).add (i.mul z) = ofReal 0 ↔ z = i) := by
  refine ⟨sin_asin z, cos_acos z, asin_add_acos z, ?_, one_sub_i_mul_eq_origin_iff,
    one_add_i_mul_eq_origin_iff⟩
  intro hup hdown
  exact ⟨cos_atan_ne_origin hup hdown, tan_atan hup hdown⟩

end Inverses

/-- At `2`, where the root for the arcsine and the arccosine is not real. -/
theorem circular_inverses_beyond_one : ∃ _ : OpenValues,
    let z : ComplexNumber ℝ := ⟨2, 0⟩
    z ≠ i ∧ z ≠ i.neg ∧ z.asin.sin = z ∧ z.acos.cos = z ∧
      z.asin.add z.acos = ofReal (Real.pi / 2) ∧ z.atan.cos ≠ ofReal 0 ∧ z.atan.tan = z := by
  let : OpenValues := ⟨fun _ => 0, 0, 0⟩
  refine ⟨this, ?_⟩
  intro z
  have hup : z ≠ i := by simp [z, i, ofImaginary]
  have hdown : z ≠ i.neg := by simp [z, i, ofImaginary, neg]
  obtain ⟨hsin, hcos, hsum, htan, -, -⟩ := circular_inverses z
  exact ⟨hup, hdown, hsin, hcos, hsum, htan hup hdown⟩

end Argand.ComplexNumber
