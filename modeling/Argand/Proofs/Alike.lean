import Argand.Proofs.Doubles

/-!
# Doubles up to the sign of zeros

Two doubles are alike if they are the same or zeros of opposite signs.  Arithmetic takes
alike operands to alike results, and so do the elementary functions, but for the angle: at
the negative half of the real axis the sign of a zero decides.

## Main definitions

* `signOf u`, `Nonneg x` — the sign of a form, and doubles without a minus sign.
* `Alike a b` — the same up to the sign of a zero.

## Main results

* `add_eq_negZero_iff` — **only two negative zeros add up to a negative zero**: no sum is
  rounded to zero.
* `Nonneg.mul`, `nonneg_exp` — products and exponentials without a minus sign.
* `Alike.add`, `Alike.sub`, `Alike.mul` — arithmetic on alike operands.
* `Alike.angle` — angles of alike points are alike, if the points do not lie on opposite
  edges of the negative half-axis.
-/

namespace Argand.Binary64

open Float.Model (Format UnpackedFloat totalExponent)
open Float.Model.UnpackedFloat (Sign packComponents packedInfinity unpackSign unpackExponent
  unpackMantissa Accuracy ExtendedMantissa roundWithAccuracy shiftToExponent
  shiftToTargetExponent)

/-! ### Sums are not rounded to zero -/

/-- The least exponent of a finite number. -/
theorem minExponent_le_of_form {x : Float} {s : Sign} {m : Nat} {e : Int} {hm : 0 < m}
    (h : form x = .finite s m e hm) : -1074 ≤ e := by
  have hx := canonical_form x
  rw [h, Canonical, targetExponent_eq] at hx
  omega

theorem mantissa_repeat_shiftRightOne (k : Nat) (em : ExtendedMantissa) :
    (k.repeat ExtendedMantissa.shiftRightOne em).mantissa = em.mantissa / 2 ^ k := by
  induction k with
  | zero => simp [Nat.repeat]
  | succ k ih =>
    rw [Nat.repeat, ExtendedMantissa.shiftRightOne, ih, Nat.div_div_eq_div_mul, Nat.pow_succ]

theorem mantissa_ofMantissaAndAccuracy (m : Nat) (acc : Accuracy) :
    (ExtendedMantissa.ofMantissaAndAccuracy m acc).mantissa = m := by
  cases acc with
  | exact => rfl
  | inexact o => cases o <;> rfl

/-- Bits are dropped down to the 53 of a significand, and never all of them. -/
theorem shiftToTargetExponent_bounds {m : Nat} {e : Int} (hm : 0 < m) (he : -1074 ≤ e)
    (acc : Accuracy) :
    0 < (shiftToTargetExponent Format.binary64 m e acc).1.mantissa ∧
      (shiftToTargetExponent Format.binary64 m e acc).1.mantissa < 2 ^ 53 ∧
      -1074 ≤ (shiftToTargetExponent Format.binary64 m e acc).2 := by
  have hlo := Nat.log2_self_le (Nat.ne_of_gt hm)
  have hhi : m < 2 ^ (m.log2 + 1) := Nat.lt_log2_self
  have hdropped : (Format.binary64.targetExponent (totalExponent m e) - e).toNat ≤ m.log2 := by
    rw [targetExponent_eq, totalExponent]
    omega
  have hkept : m.log2 + 1 ≤
      53 + (Format.binary64.targetExponent (totalExponent m e) - e).toNat := by
    rw [targetExponent_eq, totalExponent]
    omega
  change 0 < (Nat.repeat ExtendedMantissa.shiftRightOne _ _).mantissa ∧
    (Nat.repeat ExtendedMantissa.shiftRightOne _ _).mantissa < 2 ^ 53 ∧ -1074 ≤ e + _
  rw [mantissa_repeat_shiftRightOne, mantissa_ofMantissaAndAccuracy]
  generalize (Format.binary64.targetExponent (totalExponent m e) - e).toNat = k at hdropped hkept ⊢
  refine ⟨Nat.div_pos ?_ (Nat.two_pow_pos k), ?_, by omega⟩
  · exact Nat.le_trans (Nat.pow_le_pow_right Nat.two_pos hdropped) hlo
  · rw [Nat.div_lt_iff_lt_mul (Nat.two_pow_pos k), ← Nat.pow_add]
    exact Nat.lt_of_lt_of_le hhi (Nat.pow_le_pow_right Nat.two_pos hkept)

theorem le_roundedMantissa (em : ExtendedMantissa) : em.mantissa ≤ em.roundedMantissa := by
  rw [ExtendedMantissa.roundedMantissa]
  cases em.accuracy with
  | exact => exact Nat.le_refl _
  | inexact o => cases o <;> simp [Accuracy.roundToNearestEven]

/-- A positive multiple of the smallest double is not rounded to zero. -/
theorem roundWithAccuracy_bounds (s : Sign) {m : Nat} {e : Int} (hm : 0 < m) (he : -1074 ≤ e)
    (acc : Accuracy) :
    ∃ n d hn, roundWithAccuracy Format.binary64 s m e acc = .finite s n d hn ∧
      n < 2 ^ 53 ∧ -1074 ≤ d := by
  have hfirst := shiftToTargetExponent_bounds hm he acc
  have hrounded := Nat.lt_of_lt_of_le hfirst.1 (le_roundedMantissa _)
  have hsecond := shiftToTargetExponent_bounds hrounded hfirst.2.2 .exact
  exact ⟨_, _, hsecond.1, dif_neg (Nat.ne_of_gt hsecond.1), hsecond.2⟩

theorem form_ofForm (u : UnpackedFloat) :
    form (ofForm u) = UnpackedFloat.unpack Format.binary64 (UnpackedFloat.pack _ u) := rfl

/-- A number with the bits and the exponent of a double is not stored as a zero. -/
theorem ofForm_finite_beq_zero (s : Sign) {m : Nat} {e : Int} (hm : 0 < m) (hbits : m < 2 ^ 53)
    (he : -1074 ≤ e) : (ofForm (.finite s m e hm) == 0) = false := by
  have hbias : (Format.binary64.exponentBias : Int) = 1023 := rfl
  rw [Bool.eq_false_iff, ne_eq, beq_zero_iff, form_ofForm, exists_unpack_eq_zero_iff]
  rintro ⟨hexponent, hmantissa⟩
  unfold UnpackedFloat.pack at hexponent hmantissa
  dsimp only at hexponent hmantissa
  split at hexponent
  · rw [packedInfinity, UnpackedFloat.unpackExponent_packComponents] at hexponent
    exact absurd hexponent (by decide)
  · next hfield =>
    rw [if_neg hfield] at hmantissa
    split at hexponent
    · -- a normal number has something in its exponent
      rw [UnpackedFloat.unpackExponent_packComponents, BitVec.toNat_ofNat] at hexponent
      change ¬2 ^ 11 ≤ (e + Format.binary64.exponentBias + (52 : Nat)).toNat + 1 at hfield
      change (e + Format.binary64.exponentBias + (52 : Nat)).toNat % 2 ^ 11 = 0 at hexponent
      omega
    · next hnormal =>
      rw [if_neg hnormal, UnpackedFloat.unpackMantissa_packComponents, BitVec.toNat_ofNat]
        at hmantissa
      change m % 2 ^ 52 = 0 at hmantissa
      have hlog : m.log2 < 52 := by
        have h53 := (Nat.log2_lt (Nat.ne_of_gt hm)).mpr hbits
        change ¬m.log2 + 1 = 53 at hnormal
        omega
      rw [Nat.mod_eq_of_lt ((Nat.log2_lt (Nat.ne_of_gt hm)).mp hlog)] at hmantissa
      omega

/-- A positive multiple of the smallest double is not rounded to a zero. -/
theorem ofForm_round_beq_zero (s : Sign) {m : Nat} {e : Int} (hm : 0 < m) (he : -1074 ≤ e) :
    (ofForm (UnpackedFloat.round Format.binary64 s m e) == 0) = false := by
  unfold UnpackedFloat.round UnpackedFloat.decreaseExponent
  dsimp only
  have hshifted : 0 < m <<< (e - Format.binary64.targetExponent (totalExponent m e)).toNat := by
    rw [Nat.shiftLeft_eq]
    exact Nat.mul_pos hm (Nat.two_pow_pos _)
  have hexponent : -1074 ≤
      e - ((e - Format.binary64.targetExponent (totalExponent m e)).toNat : Int) := by
    rw [targetExponent_eq]
    omega
  obtain ⟨n, d, hn, hround, hbits, hd⟩ := roundWithAccuracy_bounds s hshifted hexponent .exact
  rw [hround]
  exact ofForm_finite_beq_zero s hn hbits hd

/-- A sum of two finite numbers is the positive zero if they cancel, and otherwise not zero. -/
theorem add_of_finite {x y : Float} {s t : Sign} {m n : Nat} {d e : Int} {hm : 0 < m}
    {hn : 0 < n} (hx : form x = .finite s m d hm) (hy : form y = .finite t n e hn) :
    x + y = 0 ∨ (x + y == 0) = false := by
  have hd := minExponent_le_of_form hx
  have he := minExponent_le_of_form hy
  rw [add_eq, hx, hy]
  simp only [UnpackedFloat.add, UnpackedFloat.normalize]
  split
  · next hlt =>
    have hneg := Int.compare_eq_lt.mp hlt
    exact .inr (ofForm_round_beq_zero _ (by omega) (by omega))
  · exact .inl rfl
  · next hgt =>
    have hpos := Int.compare_eq_gt.mp hgt
    exact .inr (ofForm_round_beq_zero _ (by omega) (by omega))

/-- A zero that is added to something else leaves no trace. -/
theorem zero_add_of_not_zero {x y : Float} (hx : (x == 0) = true) (hy : (y == 0) = false) :
    x + y = y := by
  obtain ⟨s, hs⟩ := beq_zero_iff.mp hx
  rw [add_eq, hs]
  conv_rhs => rw [← ofForm_form y]
  cases hform : form y with
  | zero t => exact absurd (beq_zero_iff.mpr ⟨t, hform⟩) (by simp [hy])
  | notANumber => rfl
  | infinity t => rfl
  | finite t m e hm => rfl

theorem add_zero_of_not_zero {x y : Float} (hx : (x == 0) = false) (hy : (y == 0) = true) :
    x + y = x := by
  rw [Binary64.add_comm, zero_add_of_not_zero hy hx]

theorem undefined_ne_negZero : undefined ≠ -0.0 := by decide

theorem ofForm_infinity_ne_negZero (s : Sign) : ofForm (.infinity s) ≠ -0.0 := by
  cases s <;> decide

/-- **Only two negative zeros add up to a negative zero.** -/
theorem add_eq_negZero_iff {x y : Float} : x + y = -0.0 ↔ x = -0.0 ∧ y = -0.0 := by
  refine ⟨fun h => ?_, ?_⟩
  · cases hx : x == 0 with
    | true =>
      cases hy : y == 0 with
      | true =>
        obtain ⟨s, hs⟩ := beq_zero_iff.mp hx
        obtain ⟨t, ht⟩ := beq_zero_iff.mp hy
        rw [add_eq, hs, ht, add_zero_zero, eq_negZero_iff, form_ofForm_zero] at h
        rw [eq_negZero_iff, eq_negZero_iff, hs, ht]
        cases s <;> cases t <;> first | exact ⟨rfl, rfl⟩ | exact nomatch h
      | false =>
        rw [zero_add_of_not_zero hx hy] at h
        exact absurd (h ▸ hy) (by decide)
    | false =>
      cases hy : y == 0 with
      | true =>
        rw [add_zero_of_not_zero hx hy] at h
        exact absurd (h ▸ hx) (by decide)
      | false =>
        -- neither is a zero, so neither is their sum, unless they cancel
        exfalso
        cases hfx : form x with
        | zero s => exact absurd (beq_zero_iff.mpr ⟨s, hfx⟩) (by simp [hx])
        | notANumber =>
          rw [add_of_notANumber (.inl hfx)] at h
          exact undefined_ne_negZero h
        | infinity s =>
          cases hfy : form y with
          | zero t => exact absurd (beq_zero_iff.mpr ⟨t, hfy⟩) (by simp [hy])
          | notANumber =>
            rw [add_of_notANumber (.inr hfy)] at h
            exact undefined_ne_negZero h
          | infinity t =>
            rw [add_eq, hfx, hfy] at h
            cases s <;> cases t <;> exact absurd h (by decide)
          | finite t n e hn =>
            rw [add_eq, hfx, hfy] at h
            exact ofForm_infinity_ne_negZero s h
        | finite s m d hm =>
          cases hfy : form y with
          | zero t => exact absurd (beq_zero_iff.mpr ⟨t, hfy⟩) (by simp [hy])
          | notANumber =>
            rw [add_of_notANumber (.inr hfy)] at h
            exact undefined_ne_negZero h
          | infinity t =>
            rw [add_eq, hfx, hfy] at h
            exact ofForm_infinity_ne_negZero t h
          | finite t n e hn =>
            rcases add_of_finite hfx hfy with hsum | hsum
            · exact absurd (h.symm.trans hsum) (by decide)
            · exact absurd (h ▸ hsum) (by decide)
  · rintro ⟨rfl, rfl⟩
    rfl

/-- A multiple of a zero is a zero, or undefined. -/
theorem zero_mul_cases {a : Float} (ha : (a == 0) = true) (x : Float) :
    (∃ s, form (a * x) = .zero s) ∨ form (a * x) = .notANumber := by
  obtain ⟨s, hs⟩ := beq_zero_iff.mp ha
  by_cases hfinite : x.isFinite
  · obtain ⟨t, ht⟩ := exists_sign_of_isFinite hfinite
    exact .inl ⟨_, ht hs⟩
  · exact .inr (form_mul_of_not_isFinite hs hfinite)

theorem mul_undefined (x : Float) : x * undefined = undefined := by
  rw [mul_eq]
  cases form x <;> rfl

/-! ### Numbers without a minus sign -/

/-- The sign of a form; what is undefined has none and counts as positive. -/
def signOf : UnpackedFloat → Sign
  | .notANumber => .positive
  | .infinity s => s
  | .zero s => s
  | .finite s _ _ _ => s

/-- Rounding keeps the sign. -/
theorem signOf_roundWithAccuracy (s : Sign) (m : Nat) (e : Int) (acc : Accuracy) :
    signOf (roundWithAccuracy Format.binary64 s m e acc) = s := by
  unfold roundWithAccuracy
  dsimp only
  split <;> rfl

/-- Storing a number keeps its sign. -/
theorem signOf_form_ofForm (u : UnpackedFloat) : signOf (form (ofForm u)) = signOf u := by
  cases u with
  | notANumber => rfl
  | infinity s => cases s <;> rfl
  | zero s => cases s <;> rfl
  | finite s m e hm =>
    rw [form_ofForm]
    unfold UnpackedFloat.pack
    dsimp only
    split
    · cases s <;> rfl
    · next hfield =>
      change ¬2 ^ 11 ≤ (e + Format.binary64.exponentBias + (52 : Nat)).toNat + 1 at hfield
      have hsign (exponent : BitVec 11) (mantissa : BitVec 52) (h : exponent ≠ -1#11) :
          signOf (UnpackedFloat.unpack Format.binary64
            (packComponents Format.binary64 s exponent mantissa)) = s := by
        unfold UnpackedFloat.unpack
        dsimp only
        simp only [UnpackedFloat.unpackExponent_packComponents,
          UnpackedFloat.unpackMantissa_packComponents, UnpackedFloat.unpackSign_packComponents,
          Sign.ofBitVec_toBitVec]
        rw [if_neg h]
        split
        · split <;> rfl
        · rfl
      split
      · refine hsign _ _ fun h => ?_
        have hnat := congrArg BitVec.toNat h
        rw [BitVec.toNat_ofNat] at hnat
        change (e + Format.binary64.exponentBias + (52 : Nat)).toNat % 2 ^ 11 = 2047 at hnat
        omega
      · exact hsign _ _ (by decide)

theorem signOf_mul {u v : UnpackedFloat} (hu : signOf u = .positive) (hv : signOf v = .positive) :
    signOf (UnpackedFloat.mul Format.binary64 u v) = .positive := by
  cases u with
  | notANumber => cases v <;> rfl
  | zero s =>
    obtain rfl : s = .positive := hu
    cases v with
    | notANumber => rfl
    | zero t => exact congrArg (Sign.positive * ·) hv
    | infinity t => rfl
    | finite t n e hn => exact congrArg (Sign.positive * ·) hv
  | infinity s =>
    obtain rfl : s = .positive := hu
    cases v with
    | notANumber => rfl
    | zero t => rfl
    | infinity t => exact congrArg (Sign.positive * ·) hv
    | finite t n e hn => exact congrArg (Sign.positive * ·) hv
  | finite s m d hm =>
    obtain rfl : s = .positive := hu
    cases v with
    | notANumber => rfl
    | zero t => exact congrArg (Sign.positive * ·) hv
    | infinity t => exact congrArg (Sign.positive * ·) hv
    | finite t n e hn =>
      obtain rfl : t = .positive := hv
      exact signOf_roundWithAccuracy _ _ _ _

/-- A double without a minus sign. -/
def Nonneg (x : Float) : Prop := signOf (form x) = .positive

namespace Nonneg

theorem ne_negZero {x : Float} (h : Nonneg x) : x ≠ -0.0 := by
  rintro rfl
  cases h

/-- Two numbers without a minus sign have a product without one. -/
theorem mul {x y : Float} (hx : Nonneg x) (hy : Nonneg y) : Nonneg (x * y) := by
  rw [Nonneg, mul_eq, signOf_form_ofForm]
  exact signOf_mul hx hy

/-- A finite multiple of a zero is a zero of the same sign. -/
theorem form_mul_of_zero {r a : Float} {s : Sign} (hr : Nonneg r) (hfinite : r.isFinite)
    (ha : form a = .zero s) : form (r * a) = .zero s := by
  obtain ⟨t, ht⟩ := exists_sign_of_isFinite hfinite
  have hzero : form (0 * r) = .zero (.positive * t) := ht rfl
  have hsign : Nonneg (0 * r) := mul rfl hr
  rw [Nonneg, hzero] at hsign
  rw [Binary64.mul_comm, ht ha]
  cases t with
  | positive => cases s <;> rfl
  | negative => cases hsign

/-- Zeros of opposite signs cancel each other, whatever they are multiplied with. -/
theorem cancel_opposite {r s a b : Float} (hr : Nonneg r) (hs : Nonneg s) (h : Opposite a b) :
    r * a + s * b = r * b + s * a := by
  obtain ⟨sign, ha, hb⟩ := h
  by_cases hfinite : r.isFinite ∧ s.isFinite
  · apply form_injective
    rw [add_eq, add_eq, hr.form_mul_of_zero hfinite.1 ha, hs.form_mul_of_zero hfinite.2 hb,
      hr.form_mul_of_zero hfinite.1 hb, hs.form_mul_of_zero hfinite.2 ha]
    cases sign <;> rfl
  · have hundefined {c d : Float} {t u : Sign} (hc : form c = .zero t) (hd : form d = .zero u) :
        r * c + s * d = undefined := by
      refine add_of_notANumber ?_
      rw [Binary64.mul_comm r, Binary64.mul_comm s]
      by_cases hfinr : r.isFinite
      · exact .inr (form_mul_of_not_isFinite hd fun hfins => hfinite ⟨hfinr, hfins⟩)
      · exact .inl (form_mul_of_not_isFinite hc hfinr)
    rw [hundefined ha hb, hundefined hb ha]

end Nonneg

theorem nonneg_abs (x : Float) : Nonneg x.abs := by
  have habs : x.abs = ofForm (form x).abs := rfl
  rw [Nonneg, habs, signOf_form_ofForm]
  cases form x <;> rfl

/-- The exponential is never negative. -/
theorem nonneg_exp (x : Float) : Nonneg (exp x) := by
  unfold exp
  split
  · rfl
  · split
    · rfl
    · split
      · split <;> rfl
      · exact nonneg_abs _

/-! ### Multiplication by one -/

theorem form_one : form 1 = .finite .positive fieldUnit (-52) (by decide) := rfl

protected theorem one_mul (x : Float) : 1 * x = x := by
  conv_rhs => rw [← ofForm_form x]
  rw [Binary64.mul_comm, mul_eq, form_one]
  have hx := canonical_form x
  cases hform : form x with
  | notANumber => rfl
  | infinity s => cases s <;> rfl
  | zero s => cases s <;> rfl
  | finite s m e hm =>
    rw [hform] at hx
    simp only [UnpackedFloat.mul, roundWithAccuracy_scaled _ hm hx]
    have hsign : s * .positive = s := by cases s <;> rfl
    rw [hsign]

theorem isNaN_iff {x : Float} : x.isNaN = true ↔ form x = .notANumber :=
  UnpackedFloat.isNaN_iff

/-! ### Alike doubles -/

/-- The same up to the sign of a zero. -/
def Alike (a b : Float) : Prop := a = b ∨ Opposite a b

theorem Opposite.symm {a b : Float} (h : Opposite a b) : Opposite b a := by
  obtain ⟨s, ha, hb⟩ := h
  refine ⟨-s, hb, ?_⟩
  rw [ha]
  cases s <;> rfl

/-- There are two zeros of opposite signs. -/
theorem Opposite.cases {a b : Float} (h : Opposite a b) :
    a = 0 ∧ b = -0.0 ∨ a = -0.0 ∧ b = 0 := by
  obtain ⟨s, ha, hb⟩ := h
  cases s with
  | positive => exact .inl ⟨eq_zero_iff.mpr ha, eq_negZero_iff.mpr hb⟩
  | negative => exact .inr ⟨eq_negZero_iff.mpr ha, eq_zero_iff.mpr hb⟩

theorem Opposite.beq_zero {a b : Float} (h : Opposite a b) : (a == 0) = true := by
  obtain ⟨s, ha, -⟩ := h
  exact beq_zero_iff.mpr ⟨s, ha⟩

theorem hypot_negZero_left (y : Float) : hypot (-0.0) y = hypot 0 y := rfl

theorem hypot_negZero_right (x : Float) : hypot x (-0.0) = hypot x 0 := rfl

theorem opposite_zero_negZero : Opposite (0 : Float) (-0.0) := ⟨.positive, rfl, rfl⟩

namespace Alike

variable {a b c d : Float}

theorem refl (a : Float) : Alike a a := .inl rfl

theorem symm (h : Alike a b) : Alike b a := h.imp Eq.symm Opposite.symm

theorem trans (hab : Alike a b) (hbc : Alike b c) : Alike a c := by
  rcases hab with rfl | hab
  · exact hbc
  · rcases hbc with rfl | hbc
    · exact .inr hab
    · -- only one zero has the sign that is not that of the middle one
      obtain ⟨s, ha, hb⟩ := hab
      obtain ⟨t, hb', hc⟩ := hbc
      obtain rfl := UnpackedFloat.zero.inj (hb.symm.trans hb')
      refine .inl (form_injective ?_)
      rw [ha, hc]
      cases s <;> rfl

/-- Only zeros are alike without being the same. -/
theorem eq_of_not_zero (h : Alike a b) (ha : (a == 0) = false) : a = b := by
  rcases h with rfl | h
  · rfl
  · exact absurd h.beq_zero (by simp [ha])

theorem beq_zero_eq (h : Alike a b) : (a == 0) = (b == 0) := by
  rcases h with rfl | h
  · rfl
  · rw [h.beq_zero, h.symm.beq_zero]

protected theorem neg (h : Alike a b) : Alike (-a) (-b) := h.imp (congrArg _) Opposite.neg

theorem add_right (h : Alike a b) (y : Float) : Alike (a + y) (b + y) := by
  rcases h with rfl | h
  · exact refl _
  · by_cases hy : y = -0.0
    · exact .inr (h.add_negZero hy)
    · exact .inl ((h.add_right_iff y).mpr hy)

protected theorem add (hab : Alike a b) (hcd : Alike c d) : Alike (a + c) (b + d) := by
  refine (hab.add_right c).trans ?_
  rw [Binary64.add_comm b, Binary64.add_comm b]
  exact hcd.add_right b

protected theorem sub (hab : Alike a b) (hcd : Alike c d) : Alike (a - c) (b - d) := by
  rw [Binary64.sub_eq_add_neg, Binary64.sub_eq_add_neg]
  exact hab.add hcd.neg

theorem mul_right (h : Alike a b) (y : Float) : Alike (a * y) (b * y) := by
  rcases h with rfl | h
  · exact refl _
  · by_cases hy : y.isFinite
    · exact .inr (h.mul_right hy)
    · exact .inl (h.mul_right_eq hy)

protected theorem mul (hab : Alike a b) (hcd : Alike c d) : Alike (a * c) (b * d) := by
  refine (hab.mul_right c).trans ?_
  rw [Binary64.mul_comm b, Binary64.mul_comm b]
  exact hcd.mul_right b

/-- What is added to alike numbers shows the sign of no zero, unless it is a negative zero. -/
theorem add_left_eq (h : Alike a b) {y : Float} (hy : y ≠ -0.0) : y + a = y + b := by
  rcases h with rfl | h
  · rfl
  · exact (h.add_left_iff y).mpr hy

theorem sub_left_eq (h : Alike a b) {y : Float} (hy : y ≠ -0.0) : y - a = y - b := by
  rcases h with rfl | h
  · rfl
  · exact (h.sub_left_iff y).mpr hy

/-- A zero that is added changes at most the sign of a zero. -/
theorem add_zero (a : Float) (hb : (b == 0) = true) : Alike (a + b) a := by
  cases ha : a == 0 with
  | false => exact .inl (add_zero_of_not_zero ha hb)
  | true =>
    obtain ⟨s, hs⟩ := beq_zero_iff.mp ha
    obtain ⟨t, ht⟩ := beq_zero_iff.mp hb
    have hsum : form (a + b) = .zero (signOfSum s t) := by
      rw [add_eq, hs, ht, add_zero_zero, form_ofForm_zero]
    by_cases hst : signOfSum s t = s
    · exact .inl (form_injective (by rw [hsum, hs, hst]))
    · refine .inr ⟨signOfSum s t, hsum, ?_⟩
      rw [hs]
      cases s <;> cases t <;> first | rfl | exact absurd rfl hst

/-- Alike numbers are equal, or both are undefined. -/
theorem beq_or_isNaN (h : Alike a b) : (a == b) = true ∨ a.isNaN = true ∧ b.isNaN = true := by
  have hbeq : (a == b) = (form a).beq (form b) := rfl
  rw [hbeq, UnpackedFloat.beq_iff_ne_notANumber_and_eq, isNaN_iff, isNaN_iff]
  rcases h with rfl | ⟨s, ha, hb⟩
  · by_cases hform : form a = .notANumber
    · exact .inr ⟨hform, hform⟩
    · exact .inl ⟨hform, hform, .inl rfl⟩
  · refine .inl ?_
    rw [ha, hb]
    cases s <;> simp

/-- Equal numbers are alike. -/
theorem of_beq (h : (a == b) = true) : Alike a b := by
  have hbeq : (a == b) = (form a).beq (form b) := rfl
  rw [hbeq, UnpackedFloat.beq_iff_ne_notANumber_and_eq] at h
  obtain ⟨-, -, hform | ⟨ha, hb⟩ | ⟨ha, hb⟩⟩ := h
  · exact .inl (form_injective hform)
  · exact .inr ⟨.positive, ha, hb⟩
  · exact .inr ⟨.negative, ha, hb⟩

/-! ### Elementary functions of alike numbers -/

protected theorem hypot (hab : Alike a b) (hcd : Alike c d) : hypot a c = hypot b d := by
  have hleft : hypot a c = hypot b c := by
    rcases hab with rfl | h
    · rfl
    · rcases h.cases with ⟨rfl, rfl⟩ | ⟨rfl, rfl⟩
      · exact (hypot_negZero_left c).symm
      · exact hypot_negZero_left c
  have hright : hypot b c = hypot b d := by
    rcases hcd with rfl | h
    · rfl
    · rcases h.cases with ⟨rfl, rfl⟩ | ⟨rfl, rfl⟩
      · exact (hypot_negZero_right b).symm
      · exact hypot_negZero_right b
  rw [hleft, hright]

protected theorem exp (h : Alike a b) : exp a = exp b := by
  have hzero : exp 0 = 1 := rfl
  have hnegZero : exp (-0.0) = 1 := rfl
  rcases h with rfl | h
  · rfl
  · rcases h.cases with ⟨rfl, rfl⟩ | ⟨rfl, rfl⟩
    · exact hzero.trans hnegZero.symm
    · exact hnegZero.trans hzero.symm

protected theorem cos (h : Alike a b) : cos a = cos b := by
  rcases h with rfl | h
  · rfl
  · rcases h.cases with ⟨rfl, rfl⟩ | ⟨rfl, rfl⟩ <;> rfl

protected theorem sin (h : Alike a b) : Alike (sin a) (sin b) := by
  rcases h with rfl | h
  · exact refl _
  · rcases h.cases with ⟨rfl, rfl⟩ | ⟨rfl, rfl⟩
    · exact .inr opposite_zero_negZero
    · exact .inr opposite_zero_negZero.symm

end Alike

/-! ### The sign bit -/

theorem toNat_unpackSign (b : BitVec Format.binary64.numBits) :
    (unpackSign b).toNat = b.toNat / (fieldUnit * fieldSize) := by
  have hb : b.toNat < 2 ^ 64 := b.isLt
  simp only [unpackSign, BitVec.toNat_cast, BitVec.extractLsb_toNat, Nat.shiftRight_eq_div_pow]
  change b.toNat / 2 ^ 63 % 2 = b.toNat / 2 ^ 63
  omega

/-- The sign bit of what is not undefined tells its sign. -/
theorem isNegative_eq {x : Float} (h : form x ≠ .notANumber) :
    isNegative x = (signOf (form x) == .negative) := by
  obtain ⟨bits, hbits⟩ := x
  let b : BitVec Format.binary64.numBits := bits.toBitVec
  have hsign : signOf (form ⟨⟨bits, hbits⟩⟩) = Sign.ofBitVec (unpackSign b) := by
    change UnpackedFloat.unpack Format.binary64 b ≠ _ at h
    change signOf (UnpackedFloat.unpack Format.binary64 b) = _
    unfold UnpackedFloat.unpack at h ⊢
    dsimp only at h ⊢
    split
    · next hinf =>
      rw [if_pos hinf] at h
      split
      · rfl
      · next hmantissa => exact absurd (if_neg hmantissa) h
    · split
      · split <;> rfl
      · rfl
  rw [hsign]
  change (b.toNat / (fieldUnit * fieldSize) == 1) = _
  rw [← toNat_unpackSign]
  generalize unpackSign b = bit
  revert bit
  decide

theorem lt_zero_iff {x : Float} : x < 0 ↔ (form x).lt (.zero .positive) = true :=
  decide_eq_true_iff

/-- The sign bit of what is neither zero nor undefined tells whether it is negative. -/
theorem isNegative_iff {x : Float} (hnan : x.isNaN = false) (hzero : (x == 0) = false) :
    isNegative x = true ↔ x < 0 := by
  have hform : form x ≠ .notANumber := by
    rw [ne_eq, ← isNaN_iff, hnan]
    exact Bool.false_ne_true
  rw [isNegative_eq hform, lt_zero_iff]
  cases hfx : form x with
  | notANumber => exact absurd hfx hform
  | zero s => exact absurd (beq_zero_iff.mpr ⟨s, hfx⟩) (by simp [hzero])
  | infinity s => cases s <;> decide
  | finite s m e hm => cases s <;> exact iff_of_eq rfl

/-- What is less than zero is neither zero nor undefined. -/
theorem ne_zero_of_neg {x : Float} (h : x < 0) : x.isNaN = false ∧ (x == 0) = false := by
  rw [lt_zero_iff] at h
  constructor
  · rw [Bool.eq_false_iff, ne_eq, isNaN_iff]
    intro hnan
    rw [hnan] at h
    exact absurd h (by decide)
  · rw [Bool.eq_false_iff, ne_eq, beq_zero_iff]
    rintro ⟨s, hs⟩
    rw [hs] at h
    cases s <;> exact absurd h (by decide)

/-! ### Angles of alike points -/

/-- What is undefined has no angle. -/
theorem angle_of_isNaN {x y : Float} (h : y.isNaN = true ∨ x.isNaN = true) :
    angle y x = undefined := by
  rw [angle, if_pos ((Bool.or_eq_true _ _).mpr h)]

theorem angle_zero {x : Float} (hnan : x.isNaN = false) :
    angle 0 x = if isNegative x then halfTurn else 0 := by
  have hpos : (0 : Float).isNaN = false := rfl
  rw [angle, hpos, hnan]
  rfl

/-- The two edges of the real axis have opposite angles. -/
theorem angle_negZero (x : Float) : angle (-0.0) x = -angle 0 x := by
  have hneg : (-0.0 : Float).isNaN = false := rfl
  cases hnan : x.isNaN with
  | true =>
    rw [angle_of_isNaN (.inr hnan), angle_of_isNaN (.inr hnan)]
    decide
  | false =>
    rw [angle_zero hnan, angle, hneg, hnan]
    rfl

/-- The angle of a point on the upper edge of the real axis. -/
theorem angle_zero_eq {x : Float} (hnan : x.isNaN = false) (hzero : (x == 0) = false) :
    angle 0 x = if x < 0 then halfTurn else 0 := by
  rw [angle_zero hnan]
  by_cases h : x < 0
  · rw [if_pos h, if_pos ((isNegative_iff hnan hzero).mpr h)]
  · rw [if_neg h, if_neg fun h' => h ((isNegative_iff hnan hzero).mp h')]

/-- The absolute value is the number or its negation. -/
theorem abs_cases (x : Float) : signOf (form x) = .negative ∧ x.abs = -x ∨
    signOf (form x) = .positive ∧ x.abs = x := by
  have habs : x.abs = ofForm (form x).abs := rfl
  have hneg : -x = ofForm (form x).neg := rfl
  rcases hs : signOf (form x) with _ | _
  · refine .inl ⟨rfl, ?_⟩
    rw [habs, hneg]
    cases hfx : form x <;> rw [hfx] at hs <;> cases hs <;> rfl
  · refine .inr ⟨rfl, ?_⟩
    conv_rhs => rw [← ofForm_form x]
    rw [habs]
    cases hfx : form x <;> rw [hfx] at hs <;> cases hs <;> rfl

theorem abs_beq_zero (x : Float) : (x.abs == 0) = (x == 0) := by
  have hzero : (-x == 0) = (x == 0) := by
    rw [Bool.eq_iff_iff, beq_zero_iff, beq_zero_iff, form_neg]
    cases form x <;> simp [UnpackedFloat.neg, Neg.neg]
  rcases abs_cases x with ⟨-, hx⟩ | ⟨-, hx⟩
  · rw [hx, hzero]
  · rw [hx]

/-- The angle of a point on the imaginary axis does not show the sign of its zero. -/
theorem angle_axis {y : Float} (hy : (y == 0) = false) : angle y (-0.0) = angle y 0 := by
  have hpos : (0 : Float).isNaN = false := rfl
  have hneg : (-0.0 : Float).isNaN = false := rfl
  rw [angle, angle, hpos, hneg, fixedAngle?, fixedAngle?, abs_beq_zero, hy]
  rfl

namespace Alike

variable {x x' y y' : Float}

/-- Alike points have alike angles, unless they lie on opposite edges of the negative
half-axis. -/
protected theorem angle (hx : Alike x x') (hy : Alike y y') (horigin : (x == 0 && y == 0) = false)
    (hside : ¬(x < 0 ∧ Opposite y y')) : Alike (angle y x) (angle y' x') := by
  rcases hy with rfl | hy
  · rcases hx with rfl | hx
    · exact refl _
    · have hy : (y == 0) = false := by simpa [hx.beq_zero] using horigin
      rcases hx.cases with ⟨rfl, rfl⟩ | ⟨rfl, rfl⟩
      · exact .inl (angle_axis hy).symm
      · exact .inl (angle_axis hy)
  · have hxzero : (x == 0) = false := by simpa [hy.beq_zero] using horigin
    obtain rfl : x = x' := hx.eq_of_not_zero hxzero
    cases hnan : x.isNaN with
    | true =>
      rw [angle_of_isNaN (.inr hnan), angle_of_isNaN (.inr hnan)]
      exact refl _
    | false =>
      have hneg : ¬x < 0 := fun h => hside ⟨h, hy⟩
      have hangle : angle 0 x = 0 := by rw [angle_zero_eq hnan hxzero, if_neg hneg]
      refine .inr ?_
      rcases hy.cases with ⟨rfl, rfl⟩ | ⟨rfl, rfl⟩
      · rw [angle_negZero, hangle]
        exact opposite_zero_negZero
      · rw [angle_negZero, hangle]
        exact opposite_zero_negZero.symm

end Alike

end Argand.Binary64
