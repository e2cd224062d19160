import Argand.Proofs.RoundedNumbers

/-!
# Rounded arithmetic

The sum, the difference, the product and the quotient of two finite doubles are the doubles nearest
to the exact results.  The sign of a zero is left open here; it is the only thing about a double
that its value does not tell.

## Main results

* `ofForm_roundWithAccuracy_eq_rounded` — a number of which enough bits are known is rounded to the
  nearest double, whatever its sign.
* `alike_add`, `alike_sub`, `alike_mul`, `alike_div` — **arithmetic is exact before it is rounded.**
* `alike_ofNat` — natural numbers are read as the nearest doubles.
-/

namespace Argand.Binary64

open Float.Model (Format UnpackedFloat totalExponent)
open Float.Model.UnpackedFloat (Sign Accuracy ExtendedMantissa roundWithAccuracy)

/-! ### Significands with a sign -/

/-- The sign does not take part in rounding. -/
theorem roundWithAccuracy_negative (m : Nat) (e : Int) (acc : Accuracy) :
    roundWithAccuracy Format.binary64 .negative m e acc =
      (roundWithAccuracy Format.binary64 .positive m e acc).neg := by
  unfold roundWithAccuracy
  dsimp only
  split <;> rfl

/-- A rational number with a sign. -/
def withSign : Sign → ℚ → ℚ
  | .positive, q => q
  | .negative, q => -q

theorem withSign_mul (s t : Sign) (p q : ℚ) :
    withSign (s * t) (p * q) = withSign s p * withSign t q := by
  cases s <;> cases t
  · exact (neg_mul_neg p q).symm
  · exact (neg_mul p q).symm
  · exact (mul_neg p q).symm
  · rfl

theorem withSign_div (s t : Sign) (p q : ℚ) :
    withSign (s / t) (p / q) = withSign s p / withSign t q := by
  cases s <;> cases t
  · exact (neg_div_neg_eq p q).symm
  · exact (neg_div q p).symm
  · exact (div_neg p).symm
  · rfl

/-- **A number of which enough bits are known is rounded to the nearest double.** -/
theorem ofForm_roundWithAccuracy_eq_rounded (s : Sign) {m : Nat} {e : Int} {acc : Accuracy} {q : ℚ}
    (hq : 0 < q) (hm : Describes (ExtendedMantissa.ofMantissaAndAccuracy m acc) (q / 2 ^ e))
    (he : e ≤ lastPlace (.ofRat q)) :
    ofForm (roundWithAccuracy Format.binary64 s m e acc) = rounded (withSign s q) := by
  have hvalue : (Ratio.ofRat q).toRat = q := by rw [Ratio.toRat_ofRat, abs_of_pos hq]
  have hpositive : ofForm (roundWithAccuracy Format.binary64 .positive m e acc) = rounded q := by
    rw [rounded_of_pos hq]
    exact ofForm_roundWithAccuracy (Ratio.num_ofRat_pos hq.ne') (Ratio.den_ofRat_pos q)
      (by rwa [hvalue]) he
  cases s with
  | positive => exact hpositive
  | negative => rw [roundWithAccuracy_negative, ofForm_neg, hpositive, withSign,
      rounded_neg_of_pos hq]

/-! ### Whole multiples of a power of two -/

theorem cast_shiftLeft (m k : Nat) : ((m <<< k : Nat) : ℚ) = m * 2 ^ (k : Int) := by
  rw [Nat.shiftLeft_eq, Nat.cast_mul, Nat.cast_pow, Nat.cast_ofNat, zpow_natCast]

section Integer

variable {m : Nat} {e : Int} (hm : 0 < m)

include hm

theorem mul_zpow_pos : (0 : ℚ) < m * 2 ^ e :=
  mul_pos (Nat.cast_pos.mpr hm) (zpow_pos two_pos e)

/-- The last place of a whole multiple of a power of two. -/
theorem lastPlace_ofRat_mul_zpow :
    lastPlace (.ofRat (m * 2 ^ e)) = max (m.log2 + e - 52) minExponent := by
  have hpow : (0 : ℚ) < 2 ^ e := zpow_pos two_pos e
  have hpos := mul_zpow_pos (e := e) hm
  have hvalue : (Ratio.ofRat ((m : ℚ) * 2 ^ e)).toRat = m * 2 ^ e := by
    rw [Ratio.toRat_ofRat, abs_of_pos hpos]
  have hsucc : (m : ℚ) < 2 ^ ((m.log2 : Int) + 1) := Ratio.lt_two_zpow_log2 m
  have hlog : (Ratio.ofRat ((m : ℚ) * 2 ^ e)).floorLog2 = m.log2 + e := by
    refine floorLog2_eq (Ratio.num_ofRat_pos hpos.ne') (Ratio.den_ofRat_pos _) ?_ ?_
    · rw [hvalue, zpow_add₀ two_ne_zero]
      exact mul_le_mul_of_nonneg_right (Ratio.two_zpow_log2_le hm) hpow.le
    · rw [hvalue, add_right_comm, zpow_add₀ two_ne_zero]
      exact mul_lt_mul_of_pos_right hsucc hpow
  rw [lastPlace, hlog]

/-- A whole multiple of a power of two is rounded to the nearest double, if no bit of the double is
beyond it. -/
theorem ofForm_roundWithAccuracy_exact (s : Sign) (he : 52 ≤ m.log2 ∨ e ≤ minExponent) :
    ofForm (roundWithAccuracy Format.binary64 s m e .exact) = rounded (withSign s (m * 2 ^ e)) := by
  refine ofForm_roundWithAccuracy_eq_rounded s (mul_zpow_pos hm) ?_ ?_
  · rw [mul_div_cancel_right₀ _ (zpow_ne_zero e two_ne_zero)]
    exact describes_exact m
  · rw [lastPlace_ofRat_mul_zpow hm]
    omega

/-- Zeros behind the significand make no difference. -/
theorem ofForm_round_eq_rounded (s : Sign) :
    ofForm (UnpackedFloat.round Format.binary64 s m e) = rounded (withSign s (m * 2 ^ e)) := by
  have htarget := targetExponent_eq (totalExponent m e)
  rw [totalExponent] at htarget
  unfold UnpackedFloat.round UnpackedFloat.decreaseExponent
  dsimp only
  generalize hk : (e - Format.binary64.targetExponent (totalExponent m e)).toNat = k
  rw [totalExponent] at hk
  have hshifted : 0 < m <<< k := by
    rw [Nat.shiftLeft_eq]
    exact Nat.mul_pos hm (Nat.two_pow_pos k)
  have hlog : (m <<< k).log2 = m.log2 + k := by
    have hlo := Nat.log2_self_le (Nat.ne_of_gt hm)
    have hhi : m < 2 ^ (m.log2 + 1) := Nat.lt_log2_self
    rw [Nat.log2_eq_iff (Nat.ne_of_gt hshifted), Nat.shiftLeft_eq, Nat.pow_add]
    refine ⟨Nat.mul_le_mul_right _ hlo, ?_⟩
    rw [Nat.add_right_comm, Nat.pow_add _ _ k]
    exact Nat.mul_lt_mul_of_pos_right hhi (Nat.two_pow_pos k)
  have hvalue : ((m <<< k : Nat) : ℚ) * 2 ^ (e - k) = m * 2 ^ e := by
    rw [cast_shiftLeft, mul_assoc, ← zpow_add₀ two_ne_zero, add_sub_cancel]
  rw [← hvalue]
  refine ofForm_roundWithAccuracy_eq_rounded s (mul_zpow_pos hshifted) ?_ ?_
  · rw [mul_div_cancel_right₀ _ (zpow_ne_zero _ two_ne_zero)]
    exact describes_exact _
  · rw [lastPlace_ofRat_mul_zpow hshifted, hlog, minExponent]
    omega

end Integer

/-- An integer times a power of two is rounded to the nearest double. -/
theorem ofForm_normalize (m e : Int) :
    ofForm (UnpackedFloat.normalize Format.binary64 m e .positive) = rounded (m * 2 ^ e) := by
  unfold UnpackedFloat.normalize
  rcases hm : compare m 0 with _ | _ | _
  · have hneg := Int.compare_eq_lt.mp hm
    have hcast : ((-m).toNat : ℚ) = -m := by exact_mod_cast Int.toNat_of_nonneg (by omega)
    have hround := ofForm_round_eq_rounded (m := (-m).toNat) (e := e) (by omega) .negative
    rw [hcast, withSign, neg_mul, neg_neg] at hround
    exact hround
  · have hzero := Int.compare_eq_eq.mp hm
    rw [hzero, Int.cast_zero, zero_mul]
    rfl
  · have hpos := Int.compare_eq_gt.mp hm
    have hcast : (m.toNat : ℚ) = m := by exact_mod_cast Int.toNat_of_nonneg (by omega)
    have hround := ofForm_round_eq_rounded (m := m.toNat) (e := e) (by omega) .positive
    rw [hcast, withSign] at hround
    exact hround

section Quotient

variable {m n : Nat} (hm : 0 < m) (hn : 0 < n) (e d : Int)

include hm hn

/-- The order of magnitude of a quotient, up to one. -/
theorem le_floorLog2_quotient : (m.log2 : Int) + e - (n.log2 + d) - 1 ≤
    (Ratio.ofRat (m * 2 ^ e / (n * 2 ^ d))).floorLog2 := by
  have hpos : (0 : ℚ) < m * 2 ^ e / (n * 2 ^ d) := div_pos (mul_zpow_pos hm) (mul_zpow_pos hn)
  have hhi := Ratio.lt_floorLog2 (Ratio.num_ofRat_pos hpos.ne') (Ratio.den_ofRat_pos _)
  have hdivisor : (n : ℚ) < 2 ^ ((n.log2 : Int) + 1) := Ratio.lt_two_zpow_log2 n
  have hlo : (2 : ℚ) ^ ((m.log2 : Int) + e - (n.log2 + d) - 1) ≤ m * 2 ^ e / (n * 2 ^ d) := by
    rw [le_div_iff₀ (mul_zpow_pos hn)]
    calc (2 : ℚ) ^ ((m.log2 : Int) + e - (n.log2 + d) - 1) * (n * 2 ^ d)
        ≤ 2 ^ ((m.log2 : Int) + e - (n.log2 + d) - 1) * (2 ^ ((n.log2 : Int) + 1) * 2 ^ d) := by
          gcongr
      _ = 2 ^ (m.log2 : Int) * 2 ^ e := by
          rw [← zpow_add₀ two_ne_zero, ← zpow_add₀ two_ne_zero, ← zpow_add₀ two_ne_zero]
          congr 1
          omega
      _ ≤ m * 2 ^ e :=
          mul_le_mul_of_nonneg_right (Ratio.two_zpow_log2_le hm) (zpow_nonneg two_pos.le e)
  rw [Ratio.toRat_ofRat, abs_of_pos hpos] at hhi
  have hlt := hlo.trans_lt hhi
  rw [zpow_lt_zpow_iff_right₀ one_lt_two] at hlt
  omega

/-- A division is carried on until enough bits are known, and the remainder tells of the others. -/
theorem ofForm_divCore (s : Sign) :
    ofForm (roundWithAccuracy Format.binary64 s
        (UnpackedFloat.divCore Format.binary64 m e n d).1
        (UnpackedFloat.divCore Format.binary64 m e n d).2.1
        (UnpackedFloat.divCore Format.binary64 m e n d).2.2) =
      rounded (withSign s (m * 2 ^ e / (n * 2 ^ d))) := by
  have hpos : (0 : ℚ) < m * 2 ^ e / (n * 2 ^ d) := div_pos (mul_zpow_pos hm) (mul_zpow_pos hn)
  have htarget := targetExponent_eq (totalExponent m e - totalExponent n d)
  unfold UnpackedFloat.divCore
  dsimp only
  generalize hg : min (e - d)
    (Format.binary64.targetExponent (totalExponent m e - totalExponent n d)) = g
  generalize hk : (e - d - g).toNat = k
  have hkg : (k : Int) + g = e - d := by omega
  have hscaled : (m : ℚ) * 2 ^ e / (n * 2 ^ d) / 2 ^ g = (m <<< k : Nat) / n := by
    have he : (2 : ℚ) ^ e = 2 ^ (k : Int) * (2 ^ d * 2 ^ g) := by
      rw [← zpow_add₀ two_ne_zero, ← zpow_add₀ two_ne_zero]
      congr 1
      omega
    rw [cast_shiftLeft, div_div, mul_assoc, he, ← mul_assoc, mul_div_mul_right _ _
      (mul_ne_zero (zpow_ne_zero d two_ne_zero) (zpow_ne_zero g two_ne_zero))]
  refine ofForm_roundWithAccuracy_eq_rounded s hpos ?_ ?_
  · rw [hscaled]
    have h := describes_fraction (m <<< k / n) (Nat.mod_lt (m <<< k) hn)
    have hdivmod : ((m <<< k : Nat) : ℚ) = n * (m <<< k / n : Nat) + (m <<< k % n : Nat) := by
      exact_mod_cast (Nat.div_add_mod _ _).symm
    rwa [hdivmod, add_div, mul_div_cancel_left₀ _ (Nat.cast_ne_zero.mpr (Nat.ne_of_gt hn))]
  · have hlog := le_floorLog2_quotient hm hn e d
    rw [totalExponent, totalExponent] at htarget hg
    rw [lastPlace, minExponent]
    omega

end Quotient

/-! ### Sums, differences, products and quotients -/

theorem toRat_finite {x : Float} {s : Sign} {m : Nat} {e : Int} {hm : 0 < m}
    (h : form x = .finite s m e hm) : toRat x = withSign s (m * 2 ^ e) := by
  rw [toRat_of_finite h]
  cases s with
  | positive => rfl
  | negative =>
    rw [Sign.apply, withSign, Int.cast_neg, neg_mul]
    rfl

theorem alike_zero {x : Float} {s : Sign} (h : form x = .zero s) : Alike x 0 :=
  .of_beq (by
    have hbeq : (x == 0) = (form x).beq (.zero .positive) := rfl
    rw [hbeq, h]
    rfl)

section Arithmetic

variable {x y : Float} (hx : x.isFinite = true) (hy : y.isFinite = true)

include hx hy

/-- **A sum is rounded to the nearest double.** -/
theorem alike_add : Alike (x + y) (rounded (toRat x + toRat y)) := by
  rcases form_cases hx with ⟨s, hs⟩ | ⟨s, m, e, hm, hs⟩
  · rw [toRat_of_zero hs, zero_add, Binary64.add_comm]
    exact (Alike.add_zero y (beq_zero_iff.mpr ⟨s, hs⟩)).trans (rounded_toRat hy).symm
  rcases form_cases hy with ⟨t, ht⟩ | ⟨t, n, d, hn, ht⟩
  · rw [toRat_of_zero ht, add_zero]
    exact (Alike.add_zero x (beq_zero_iff.mpr ⟨t, ht⟩)).trans (rounded_toRat hx).symm
  · -- both are whole multiples of the smaller power of two
    have hshift (k : Nat) (i j : Int) (hij : j ≤ i) :
        ((k <<< (i - j).toNat : Nat) : ℚ) * 2 ^ j = k * 2 ^ i := by
      rw [cast_shiftLeft, mul_assoc, Int.toNat_of_nonneg (by omega), ← zpow_add₀ two_ne_zero,
        sub_add_cancel]
    have hsum : toRat x + toRat y =
        ((s.apply (m <<< (e - min e d).toNat : Nat) + t.apply (n <<< (d - min e d).toNat : Nat) :
          Int) : ℚ) * 2 ^ min e d := by
      rw [toRat_finite hs, toRat_finite ht, ← hshift m e (min e d) (by omega),
        ← hshift n d (min e d) (by omega)]
      cases s <;> cases t <;> simp only [Sign.apply, withSign, Int.cast_add, Int.cast_neg,
        Int.cast_natCast] <;> ring
    rw [hsum, ← ofForm_normalize, add_eq, hs, ht]
    exact .refl _

/-- A difference is rounded to the nearest double. -/
theorem alike_sub : Alike (x - y) (rounded (toRat x - toRat y)) := by
  rw [Binary64.sub_eq_add_neg, sub_eq_add_neg, ← toRat_neg hy]
  exact alike_add hx ((isFinite_neg y).trans hy)

/-- A product is rounded to the nearest double. -/
theorem alike_mul : Alike (x * y) (rounded (toRat x * toRat y)) := by
  rcases form_cases hx with ⟨s, hs⟩ | ⟨s, m, e, hm, hs⟩
  · rw [toRat_of_zero hs, zero_mul, rounded_zero]
    rcases form_cases hy with ⟨t, ht⟩ | ⟨t, n, d, hn, ht⟩
    · exact alike_zero (s := s * t) (by rw [mul_eq, hs, ht]; exact form_ofForm_zero _)
    · exact alike_zero (s := s * t) (by rw [mul_eq, hs, ht]; exact form_ofForm_zero _)
  rcases form_cases hy with ⟨t, ht⟩ | ⟨t, n, d, hn, ht⟩
  · rw [toRat_of_zero ht, mul_zero, rounded_zero]
    exact alike_zero (s := s * t) (by rw [mul_eq, hs, ht]; exact form_ofForm_zero _)
  · have hmn : 0 < m * n := Nat.mul_pos hm hn
    have hproduct : toRat x * toRat y = withSign (s * t) ((m * n : Nat) * 2 ^ (e + d)) := by
      rw [toRat_finite hs, toRat_finite ht, ← withSign_mul, zpow_add₀ two_ne_zero, Nat.cast_mul,
        mul_mul_mul_comm]
    -- a significand with a leading bit is enough; without it both exponents are the smallest
    have hbits : 52 ≤ (m * n).log2 ∨ e + d ≤ minExponent := by
      obtain ⟨-, hemin, hm52⟩ := canonical_bounds hs
      obtain ⟨-, hdmin, hn52⟩ := canonical_bounds ht
      rcases hm52 with hm52 | he
      · exact .inl ((Nat.le_log2 (Nat.ne_of_gt hmn)).mpr
          (hm52.trans (Nat.le_mul_of_pos_right m hn)))
      rcases hn52 with hn52 | hd
      · exact .inl ((Nat.le_log2 (Nat.ne_of_gt hmn)).mpr
          (hn52.trans (Nat.le_mul_of_pos_left n hm)))
      · rw [minExponent] at he hd ⊢
        omega
    rw [hproduct, ← ofForm_roundWithAccuracy_exact hmn (s * t) hbits, mul_eq, hs, ht]
    exact .refl _

/-- A quotient is rounded to the nearest double. -/
theorem alike_div (h0 : toRat y ≠ 0) : Alike (x / y) (rounded (toRat x / toRat y)) := by
  have hdiv : x / y = ofForm (UnpackedFloat.div Format.binary64 (form x) (form y)) := rfl
  rcases form_cases hy with ⟨t, ht⟩ | ⟨t, n, d, hn, ht⟩
  · exact absurd (toRat_of_zero ht) h0
  rcases form_cases hx with ⟨s, hs⟩ | ⟨s, m, e, hm, hs⟩
  · rw [toRat_of_zero hs, zero_div, rounded_zero]
    exact alike_zero (s := s / t) (by rw [hdiv, hs, ht]; exact form_ofForm_zero _)
  · have hquotient : toRat x / toRat y = withSign (s / t) (m * 2 ^ e / (n * 2 ^ d)) := by
      rw [toRat_finite hs, toRat_finite ht, ← withSign_div]
    rw [hquotient, ← ofForm_divCore hm hn e d, hdiv, hs, ht]
    exact .refl _

end Arithmetic

/-! ### Numbers that are read exactly -/

theorem toRat_one : toRat 1 = 1 := by
  have hunit : ((fieldUnit : Nat) : ℚ) = 2 ^ (52 : Int) := by exact_mod_cast rfl
  rw [toRat_finite form_one, withSign, hunit, ← zpow_add₀ two_ne_zero]
  exact zpow_zero 2

theorem alike_mul_one {x : Float} (hx : x.isFinite = true) : Alike (x * 1) x := by
  have hmul := alike_mul hx (y := 1) rfl
  rw [toRat_one, mul_one] at hmul
  exact hmul.trans (rounded_toRat hx)

theorem mul_finite (s t : Sign) {m n : Nat} (e d : Int) (hm : 0 < m) (hn : 0 < n) :
    UnpackedFloat.mul Format.binary64 (.finite s m e hm) (.finite t n d hn) =
      roundWithAccuracy Format.binary64 (s * t) (m * n) (e + d) .exact := rfl

theorem toFloat_eq (n : UInt64) : n.toFloat = rounded n.toNat := by
  have hround := ofForm_normalize n.toNat 0
  rw [zpow_zero, mul_one] at hround
  exact hround

theorem lt_overflowBound {q : ℚ} (h : q < 2 ^ 63) : q < overflowBound :=
  calc q < (2 ^ 54 - 1) * 2 ^ (10 : Int) := by norm_num at h ⊢; linarith
    _ ≤ overflowBound := mul_le_mul_of_nonneg_left
        (zpow_le_zpow_right₀ one_le_two (by decide)) (by norm_num)

theorem isFinite_rounded_natCast {n : Nat} (h : n < 2 ^ 63) :
    (rounded (n : ℚ)).isFinite = true := by
  rw [isFinite_rounded_iff, abs_of_nonneg (Nat.cast_nonneg n)]
  exact lt_overflowBound (by exact_mod_cast h)

/-- A natural number is read as the nearest double. -/
theorem alike_ofNat (n : Nat) : Alike (Float.ofNat n) (rounded n) := by
  have hofNat : Float.ofNat n = Float.ofScientific n false 0 := rfl
  rw [hofNat, Float.ofScientific]
  split
  · next h =>
    have hone : Float.exactlyRepresentablePowersOfTen[0] = 1 := rfl
    have hn : n.toUInt64.toNat = n := UInt64.toNat_ofNat_of_lt' (h.1.trans (by decide))
    have hfloat : n.toUInt64.toFloat = rounded n := by rw [toFloat_eq, hn]
    dsimp only
    rw [if_neg Bool.false_ne_true, hone, hfloat]
    exact alike_mul_one (isFinite_rounded_natCast (h.1.trans (by decide)))
  · next h =>
    -- read with 53 zeros behind it
    have hlarge : 0 < n := by
      by_contra hzero
      exact h ⟨by omega, by decide⟩
    have hshifted : 0 < (n <<< 53) * 10 ^ 0 := by
      rw [Nat.shiftLeft_eq]
      omega
    have hlog : 52 ≤ ((n <<< 53) * 10 ^ 0).log2 := by
      rw [Nat.le_log2 (Nat.ne_of_gt hshifted), Nat.shiftLeft_eq]
      omega
    have hvalue : (((n <<< 53) * 10 ^ 0 : Nat) : ℚ) * 2 ^ (-53 : Int) = n := by
      rw [pow_zero, mul_one, cast_shiftLeft, mul_assoc, ← zpow_add₀ two_ne_zero]
      exact mul_one _
    have hround := ofForm_roundWithAccuracy_exact (e := -53) hshifted .positive (.inl hlog)
    have hread : UnpackedFloat.ofScientific Format.binary64 n 0 =
        roundWithAccuracy Format.binary64 .positive ((n <<< 53) * 10 ^ 0) (-53) .exact := by
      have hfar : ¬(0 : Int) < -(2 ^ 11 + (n.log2 : Int)) := by omega
      rw [UnpackedFloat.ofScientific, dif_neg (Nat.ne_of_gt hlarge), if_neg (by decide)]
      split
      · next hlt => exact absurd hlt hfar
      · have hbits : Format.binary64.mantissaBits = 53 := rfl
        rw [if_pos (le_refl _), mul_finite]
        simp only [hbits, Int.toNat_zero]
        rfl
    rw [hvalue, ← hread] at hround
    dsimp only
    rw [if_neg Bool.false_ne_true]
    exact (congrArg (Alike · (rounded n)) hround).mpr (.refl _)

/-- What fits into a significand is not changed. -/
theorem toRat_rounded_of_lt {m : Nat} {e : Int} (hm : 0 < m) (hbits : m < 2 ^ 53)
    (he : minExponent ≤ e) (hfinite : (m : ℚ) * 2 ^ e < overflowBound) :
    toRat (rounded (m * 2 ^ e)) = m * 2 ^ e := by
  have hpos := mul_zpow_pos (e := e) hm
  have hnum := Ratio.num_ofRat_pos hpos.ne'
  have hden := Ratio.den_ofRat_pos ((m : ℚ) * 2 ^ e)
  have hvalue : (Ratio.ofRat ((m : ℚ) * 2 ^ e)).toRat = m * 2 ^ e := by
    rw [Ratio.toRat_ofRat, abs_of_pos hpos]
  have hplace : lastPlace (.ofRat ((m : ℚ) * 2 ^ e)) ≤ e := by
    have hlog := (Nat.log2_lt (Nat.ne_of_gt hm)).mpr hbits
    rw [lastPlace_ofRat_mul_zpow hm]
    omega
  obtain ⟨k, hk⟩ := Int.le.dest hplace
  have herror := abs_toRat_nearest_sub_le hnum hden
    ((isFinite_nearest_iff_lt hnum hden).mpr (by rwa [hvalue])) (m * 2 ^ k)
  have hmultiple : ((m * 2 ^ k : Int) : ℚ) * 2 ^ lastPlace (.ofRat ((m : ℚ) * 2 ^ e)) =
      m * 2 ^ e := by
    rw [Int.cast_mul, Int.cast_natCast, Int.cast_pow, Int.cast_ofNat, mul_assoc, ← zpow_natCast,
      ← zpow_add₀ two_ne_zero, Int.add_comm, hk]
  rw [hvalue, hmultiple, sub_self, abs_zero, abs_nonpos_iff, sub_eq_zero] at herror
  rw [rounded_of_pos hpos, herror]

theorem isFinite_ofNat {n : Nat} (h : n < 2 ^ 63) : (Float.ofNat n).isFinite = true :=
  (alike_ofNat n).isFinite_eq.trans (isFinite_rounded_natCast h)

theorem toRat_ofNat {n : Nat} (h : n < 2 ^ 53) : toRat (Float.ofNat n) = n := by
  rw [toRat_of_alike (alike_ofNat n)]
  rcases Nat.eq_zero_or_pos n with rfl | hpos
  · exact toRat_zero
  · have hexact := toRat_rounded_of_lt (e := 0) hpos h (by decide)
    rw [zpow_zero, mul_one] at hexact
    exact hexact (lt_overflowBound (by exact_mod_cast h.trans (by decide)))

theorem toRat_ofNat_mono {m n : Nat} (h : m ≤ n) :
    toRat (Float.ofNat m) ≤ toRat (Float.ofNat n) := by
  rw [toRat_of_alike (alike_ofNat m), toRat_of_alike (alike_ofNat n)]
  exact toRat_rounded_mono (Nat.cast_le.mpr h)

theorem toRat_ofNat_nonneg (n : Nat) : 0 ≤ toRat (Float.ofNat n) := by
  have hmono := toRat_ofNat_mono (Nat.zero_le n)
  rwa [toRat_ofNat (by decide), Nat.cast_zero] at hmono

theorem toRat_abs {x : Float} (hx : x.isFinite = true) : toRat x.abs = |toRat x| := by
  rw [abs_toRat, toRat, decode_abs hx, if_neg Bool.false_ne_true, Parts.toRat_magnitude]

/-! ### Infinite results -/

theorem isFinite_or_infinity_of_nonneg {x : Float} (hx : x.isNaN = false) (h0 : 0 ≤ toRat x) :
    x.isFinite = true ∨ x = infinity := by
  rcases isFinite_or_infinity hx with h | h | rfl
  · exact .inl h
  · exact .inr h
  · rw [toRat_neg_infinity] at h0
    exact absurd h0 (not_le.mpr (neg_lt_zero.mpr (zpow_pos two_pos _)))

theorem add_infinity {x : Float} (hx : x.isFinite = true) : x + infinity = infinity := by
  rw [add_eq]
  rcases form_cases hx with ⟨s, hs⟩ | ⟨s, m, e, hm, hs⟩ <;> rw [hs] <;> rfl

theorem infinity_div {x : Float} (hx : x.isFinite = true) (hpos : 0 < toRat x) :
    infinity / x = infinity := by
  have hdiv : infinity / x =
      ofForm (UnpackedFloat.div Format.binary64 (.infinity .positive) (form x)) := rfl
  rcases form_cases hx with ⟨s, hs⟩ | ⟨s, m, e, hm, hs⟩
  · exact absurd (toRat_of_zero hs) hpos.ne'
  · cases s with
    | positive =>
      rw [hdiv, hs]
      rfl
    | negative =>
      rw [toRat_finite hs, withSign] at hpos
      exact absurd hpos (not_lt.mpr (neg_nonpos.mpr (mul_zpow_pos hm).le))

section Summand

variable {x y z : Float} (hx : x.isFinite = true) (hy : y.isNaN = false) (hy0 : 0 ≤ toRat y)

include hx hy hy0

theorem isNaN_add : (x + y).isNaN = false := by
  rcases isFinite_or_infinity_of_nonneg hy hy0 with hfinite | rfl
  · exact isNaN_of_alike (alike_add hx hfinite)
  · rw [add_infinity hx]
    decide

/-- Sums are in the order of their second summands, be these finite or not. -/
theorem toRat_add_le (hz : z.isNaN = false) (hyz : toRat y ≤ toRat z) :
    toRat (x + y) ≤ toRat (x + z) := by
  rcases isFinite_or_infinity_of_nonneg hz (hy0.trans hyz) with hfinite | rfl
  · rcases isFinite_or_infinity_of_nonneg hy hy0 with hfinite' | rfl
    · rw [toRat_of_alike (alike_add hx hfinite), toRat_of_alike (alike_add hx hfinite')]
      exact toRat_rounded_mono (add_le_add_right hyz _)
    · rw [toRat_infinity] at hyz
      exact absurd hyz (not_le.mpr (abs_lt.mp (abs_toRat_lt hfinite)).2)
  · rw [add_infinity hx]
    exact (toRat_between (isNaN_add hx hy hy0)).2

end Summand

end Argand.Binary64
