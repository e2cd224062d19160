import Argand.Proofs.NearestDoubles

/-!
# Rounding

Doubles are rounded by dropping bits: a significand keeps the bits that fit, the first bit that is
dropped and whether there was anything behind it.  This is the same as taking the nearest double.

## Main definitions

* `Describes em t` — a significand, with what is known of the bits that were dropped, stands for
  the number `t`.
* `formOf m e` — the form of a significand with its exponent.

## Main results

* `Describes.shiftRight` — a significand goes on standing for its number when bits are dropped.
* `Describes.roundedMantissa_eq` — the kept bits tell how to round.
* `ofForm_carry` — rounding up to one bit more carries to the exponent.
* `ofForm_roundWithAccuracy` — **dropping bits finds the nearest double.**
-/

namespace Argand.Binary64

open Float.Model (Format UnpackedFloat totalExponent)
open Float.Model.UnpackedFloat (Sign packComponents packedInfinity Accuracy ExtendedMantissa
  roundWithAccuracy shiftToExponent shiftToTargetExponent)

/-! ### Significands with dropped bits -/

/-- A significand with two more bits stands for a number: the first of them counts a half, and the
second tells whether there is a rest, of less than a half. -/
def Describes (em : ExtendedMantissa) (t : ℚ) : Prop :=
  ∃ rest : ℚ, t = em.mantissa + (bif em.roundBit then 1 / 2 else 0) + rest ∧
    0 ≤ rest ∧ rest < 1 / 2 ∧ (em.stickyBit = true ↔ 0 < rest)

namespace Describes

variable {em : ExtendedMantissa} {t : ℚ}

/-- The significand is the whole part. -/
theorem bounds (h : Describes em t) : em.mantissa ≤ t ∧ t < em.mantissa + 1 := by
  obtain ⟨rest, rfl, hnonneg, hlt, -⟩ := h
  cases em.roundBit <;> dsimp only [cond_true, cond_false] <;> constructor <;> linarith

/-- A bit that is dropped halves the number. -/
theorem shiftRightOne (h : Describes em t) : Describes em.shiftRightOne (t / 2) := by
  obtain ⟨rest, rfl, hnonneg, hlt, hsticky⟩ := h
  obtain ⟨m, roundBit, stickyBit⟩ := em
  have hm : (m : ℚ) = 2 * (m / 2 : Nat) + (m % 2 : Nat) := by
    exact_mod_cast (Nat.div_add_mod m 2).symm
  have hbit : (bif m % 2 != 0 then 1 / 2 else 0 : ℚ) = (m % 2 : Nat) / 2 := by
    rcases Nat.mod_two_eq_zero_or_one m with h2 | h2
    · rw [h2, Nat.cast_zero, zero_div]
      rfl
    · rw [h2, Nat.cast_one]
      rfl
  refine ⟨(bif roundBit then 1 / 4 else 0) + rest / 2, ?_, ?_, ?_, ?_⟩
  · change ((m : ℚ) + (bif roundBit then 1 / 2 else 0) + rest) / 2 =
      (m / 2 : Nat) + (bif m % 2 != 0 then 1 / 2 else 0) + _
    rw [hm, hbit]
    cases roundBit <;> dsimp only [cond_true, cond_false] <;> ring
  · cases roundBit <;> dsimp only [cond_true, cond_false] <;> linarith
  · cases roundBit <;> dsimp only [cond_true, cond_false] <;> linarith
  · change (roundBit || stickyBit) = true ↔ _
    cases roundBit with
    | true => exact iff_of_true rfl (by rw [cond_true]; linarith)
    | false =>
      rw [Bool.false_or, cond_false, zero_add]
      exact hsticky.trans ⟨half_pos, fun h => by linarith⟩

theorem shiftRight (h : Describes em t) (k : Nat) :
    Describes (k.repeat ExtendedMantissa.shiftRightOne em) (t / 2 ^ k) := by
  induction k with
  | zero => simpa [Nat.repeat] using h
  | succ k ih =>
    rw [pow_succ, ← div_div]
    exact ih.shiftRightOne

/-- A significand is rounded by at most a half, and to an even one if by a half. -/
theorem abs_roundedMantissa_sub_le (h : Describes em t) :
    |(em.roundedMantissa : ℚ) - t| ≤ 1 / 2 ∧
      (|(em.roundedMantissa : ℚ) - t| = 1 / 2 → em.roundedMantissa % 2 = 0) := by
  obtain ⟨rest, rfl, hnonneg, hlt, hsticky⟩ := h
  obtain ⟨m, roundBit, stickyBit⟩ := em
  cases roundBit with
  | false =>
    -- less than a half is dropped
    have hrounded : (ExtendedMantissa.mk m false stickyBit).roundedMantissa = m := by
      cases stickyBit <;> rfl
    have hdistance : |(m : ℚ) - (m + (bif false then 1 / 2 else 0) + rest)| = rest := by
      rw [abs_sub_comm, cond_false, add_zero, add_sub_cancel_left, abs_of_nonneg hnonneg]
    rw [hrounded, hdistance]
    exact ⟨hlt.le, fun heq => absurd heq (ne_of_lt hlt)⟩
  | true =>
    cases stickyBit with
    | false =>
      -- a half goes to the even neighbour
      have hrest : rest = 0 :=
        le_antisymm (not_lt.mp fun hpos => Bool.false_ne_true (hsticky.mpr hpos)) hnonneg
      have heven : (ExtendedMantissa.mk m true false).roundedMantissa = m + m % 2 := rfl
      rw [heven, hrest, cond_true]
      refine ⟨?_, fun _ => by omega⟩
      rcases Nat.mod_two_eq_zero_or_one m with h2 | h2 <;> rw [h2, abs_le] <;> push_cast <;>
        constructor <;> linarith
    | true =>
      have hpos : 0 < rest := hsticky.mp rfl
      have hdistance : |((m + 1 : Nat) : ℚ) - (m + (bif true then 1 / 2 else 0) + rest)| =
          1 / 2 - rest := by
        rw [cond_true, abs_of_nonneg] <;> push_cast <;> linarith
      change |((m + 1 : Nat) : ℚ) - _| ≤ _ ∧ (|((m + 1 : Nat) : ℚ) - _| = _ → _)
      rw [hdistance]
      exact ⟨by linarith, fun heq => absurd heq (by linarith)⟩

/-- **The kept bits tell how to round.** -/
theorem roundedMantissa_eq {r : Ratio} (h : Describes em r.toRat) (hden : 0 < r.den) :
    em.roundedMantissa = r.round :=
  (Ratio.round_eq hden h.abs_roundedMantissa_sub_le.1 h.abs_roundedMantissa_sub_le.2).symm

end Describes

/-- Nothing was dropped yet. -/
theorem describes_exact (m : Nat) :
    Describes (ExtendedMantissa.ofMantissaAndAccuracy m .exact) m :=
  ⟨0, by simp [ExtendedMantissa.ofMantissaAndAccuracy], le_rfl, by norm_num,
    by simp [ExtendedMantissa.ofMantissaAndAccuracy]⟩

/-- The remainder of a division tells about the bits that were not calculated. -/
theorem describes_fraction (m : Nat) {num den : Nat} (h : num < den) :
    Describes (ExtendedMantissa.ofMantissaAndAccuracy m (UnpackedFloat.accuracyOfFraction num den))
      (m + num / den) := by
  have hd : (0 : ℚ) < den := Nat.cast_pos.mpr (Nat.zero_lt_of_lt h)
  rw [UnpackedFloat.accuracyOfFraction]
  split
  · next h0 =>
    rw [h0, Nat.cast_zero, zero_div, add_zero]
    exact describes_exact m
  · next hpos =>
    have hnum : (0 : ℚ) < num / den := div_pos (Nat.cast_pos.mpr (Nat.pos_of_ne_zero hpos)) hd
    have hone : (num : ℚ) / den < 1 := (div_lt_one hd).mpr (Nat.cast_lt.mpr h)
    have hhalf : (num : ℚ) / den < 1 / 2 ↔ 2 * num < den := by
      rw [div_lt_div_iff₀ hd two_pos, one_mul, mul_comm]
      exact_mod_cast Iff.rfl
    have hhalf' : (1 : ℚ) / 2 < num / den ↔ den < 2 * num := by
      rw [div_lt_div_iff₀ two_pos hd, one_mul, mul_comm (num : ℚ)]
      exact_mod_cast Iff.rfl
    rcases hcompare : compare (2 * num) den with _ | _ | _
    · have hlt := hhalf.mpr (Nat.compare_eq_lt.mp hcompare)
      exact ⟨num / den, by simp [ExtendedMantissa.ofMantissaAndAccuracy], hnum.le, hlt, by
        simpa [ExtendedMantissa.ofMantissaAndAccuracy] using hnum⟩
    · have heq : (num : ℚ) / den = 1 / 2 := by
        rw [div_eq_div_iff hd.ne' two_ne_zero, one_mul, mul_comm]
        exact_mod_cast Nat.compare_eq_eq.mp hcompare
      refine ⟨0, ?_, le_rfl, one_half_pos, ?_⟩
      · rw [heq]
        simp [ExtendedMantissa.ofMantissaAndAccuracy]
      · simp [ExtendedMantissa.ofMantissaAndAccuracy]
    · have hlt := hhalf'.mpr (Nat.compare_eq_gt.mp hcompare)
      refine ⟨num / den - 1 / 2, ?_, by linarith, by linarith, ?_⟩
      · simp [ExtendedMantissa.ofMantissaAndAccuracy]
      · simpa [ExtendedMantissa.ofMantissaAndAccuracy] using hlt

/-! ### Bits of a form -/

theorem eq_of_toNat_toBits {x y : Float} (h : x.toBits.toNat = y.toBits.toNat) : x = y := by
  obtain ⟨xbits, hx⟩ := x
  obtain ⟨ybits, hy⟩ := y
  obtain rfl : xbits = ybits := UInt64.toNat_inj.mp h
  rfl

theorem toNat_packComponents (exponent : BitVec 11) (mantissa : BitVec 52) :
    (packComponents Format.binary64 .positive exponent mantissa).toNat =
      exponent.toNat * fieldUnit + mantissa.toNat := by
  change ((0#1 ++ exponent : BitVec 12) ++ mantissa).toNat = _
  rw [BitVec.toNat_append, BitVec.toNat_append, ← Nat.shiftLeft_add_eq_or_of_lt mantissa.isLt,
    Nat.shiftLeft_eq]
  simp [fieldUnit]

/-- A significand with 53 bits, or as many as there are above the smallest exponent, stands behind
its exponent. -/
theorem ofForm_finite {m : Nat} {e : Int} (hm : 0 < m) (hbits : m < 2 * fieldUnit)
    (he : minExponent ≤ e) (hnormal : fieldUnit ≤ m ∨ e = minExponent) :
    ofForm (.finite .positive m e hm) =
      Float.ofBits (UInt64.ofNat (min ((e - minExponent).toNat * fieldUnit + m) infinityBits)) := by
  apply eq_of_toNat_toBits
  rw [toNat_toBits_ofBits (Nat.min_le_right _ _)]
  change (UnpackedFloat.pack Format.binary64 (.finite .positive m e hm)).toNat = _
  have hbias : (Format.binary64.exponentBias : Int) = 1023 := rfl
  unfold UnpackedFloat.pack
  dsimp only
  rw [hbias]
  rw [fieldUnit_eq] at hbits hnormal ⊢
  rw [minExponent] at he hnormal ⊢
  rw [infinityBits]
  split
  · next hinf =>
    rw [packedInfinity, toNat_packComponents]
    change 2047 * fieldUnit + 0 = _
    rw [fieldUnit_eq]
    change 2048 ≤ _ at hinf
    omega
  · next hfinite =>
    change ¬2048 ≤ _ at hfinite
    split
    · next hlog =>
      change m.log2 + 1 = 53 at hlog
      have hlead := Nat.log2_self_le (Nat.ne_of_gt hm)
      rw [show m.log2 = 52 by omega] at hlead
      rw [toNat_packComponents, BitVec.toNat_ofNat, BitVec.toNat_ofNat, fieldUnit_eq]
      omega
    · next hlog =>
      change ¬m.log2 + 1 = 53 at hlog
      have hsub : m < 4503599627370496 := by
        by_contra hge
        exact hlog (congrArg (· + 1) ((Nat.log2_eq_iff (Nat.ne_of_gt hm)).mpr ⟨by omega, by omega⟩))
      have hlow : (BitVec.ofNat 52 m).toNat = m := by
        rw [BitVec.toNat_ofNat]
        omega
      rw [toNat_packComponents, fieldUnit_eq]
      change 0 * 4503599627370496 + (BitVec.ofNat 52 m).toNat = _
      rw [hlow]
      omega

/-- A form of the other sign stands for the negated double. -/
theorem ofForm_neg (u : UnpackedFloat) : ofForm u.neg = -ofForm u := by
  have hpack : u = .notANumber ∨ ∃ s exponent mantissa,
      UnpackedFloat.pack Format.binary64 u = packComponents Format.binary64 s exponent mantissa ∧
      UnpackedFloat.pack Format.binary64 u.neg =
        packComponents Format.binary64 (-s) exponent mantissa := by
    cases u with
    | notANumber => exact .inl rfl
    | infinity s => exact .inr ⟨s, _, _, rfl, rfl⟩
    | zero s => exact .inr ⟨s, _, _, rfl, rfl⟩
    | finite s m e hm =>
      right
      simp only [UnpackedFloat.neg, UnpackedFloat.pack]
      split
      · exact ⟨s, _, _, rfl, rfl⟩
      · split
        · exact ⟨s, _, _, rfl, rfl⟩
        · exact ⟨s, _, _, rfl, rfl⟩
  rcases hpack with rfl | ⟨s, exponent, mantissa, hu, hneg⟩
  · rfl
  · apply form_injective
    rw [form_neg, form_ofForm, form_ofForm, hneg, hu]
    have hsign := unpack_packComponents_neg (packComponents Format.binary64 s exponent mantissa)
    rw [UnpackedFloat.unpackExponent_packComponents, UnpackedFloat.unpackMantissa_packComponents,
      UnpackedFloat.unpackSign_packComponents, Sign.ofBitVec_toBitVec] at hsign
    exact hsign

/-! ### Dropping bits finds the nearest double -/

/-- The order of magnitude is the only one that fits. -/
theorem floorLog2_eq {r : Ratio} (hnum : 0 < r.num) (hden : 0 < r.den) {k : Int}
    (hlo : (2 : ℚ) ^ k ≤ r.toRat) (hhi : r.toRat < (2 : ℚ) ^ (k + 1)) : r.floorLog2 = k := by
  have hle := (Ratio.le_floorLog2 hnum hden).trans_lt hhi
  have hlt := hlo.trans_lt (Ratio.lt_floorLog2 hnum hden)
  rw [zpow_lt_zpow_iff_right₀ one_lt_two] at hle hlt
  omega

/-- Bits are dropped one after the other. -/
theorem shiftToTargetExponent_eq {m : Nat} {e : Int} (acc : Accuracy) {k : Nat}
    (h : (Format.binary64.targetExponent (totalExponent m e) - e).toNat = k) :
    shiftToTargetExponent Format.binary64 m e acc =
      (k.repeat ExtendedMantissa.shiftRightOne (ExtendedMantissa.ofMantissaAndAccuracy m acc),
        e + k) := by
  unfold shiftToTargetExponent shiftToExponent
  dsimp only
  rw [h]
  rfl

/-- The form of a significand with its exponent; without a significand it is zero. -/
def formOf (m : Nat) (e : Int) : UnpackedFloat :=
  if h : m = 0 then .zero .positive else .finite .positive m e (Nat.pos_of_ne_zero h)

theorem ofForm_formOf {m : Nat} {e : Int} (hbits : m < 2 * fieldUnit) (he : minExponent ≤ e)
    (hnormal : fieldUnit ≤ m ∨ e = minExponent) :
    ofForm (formOf m e) =
      Float.ofBits (UInt64.ofNat (min ((e - minExponent).toNat * fieldUnit + m) infinityBits)) := by
  rw [formOf]
  split
  · next h0 =>
    -- zero, which has the smallest exponent
    have hexponent : e = minExponent := hnormal.resolve_left (by rw [h0]; decide)
    rw [h0, hexponent]
    rfl
  · exact ofForm_finite _ hbits he hnormal

/-- A significand that is rounded up to one bit more gives it back to the exponent; the bits of the
double are the same. -/
theorem ofForm_carry {n : Nat} {e : Int} (hn : n ≤ 2 * fieldUnit) (he : minExponent ≤ e)
    (hnormal : fieldUnit ≤ n ∨ e = minExponent) :
    ofForm (formOf (shiftToTargetExponent Format.binary64 n e .exact).1.mantissa
        (shiftToTargetExponent Format.binary64 n e .exact).2) =
      Float.ofBits (UInt64.ofNat (min ((e - minExponent).toNat * fieldUnit + n) infinityBits)) := by
  have hmin : minExponent = -1074 := rfl
  have htarget := targetExponent_eq (totalExponent n e)
  rw [totalExponent] at htarget
  rcases Nat.lt_or_eq_of_le hn with hlt | rfl
  · have hlog : n.log2 ≤ 52 := by
      rcases Nat.eq_zero_or_pos n with rfl | hpos
      · decide
      · exact Nat.le_of_lt_succ ((Nat.log2_lt (Nat.ne_of_gt hpos)).mpr hlt)
    rw [shiftToTargetExponent_eq .exact (k := 0) (by rw [totalExponent]; omega)]
    have hplace : e + (0 : Nat) = e := Int.add_zero e
    rw [hplace]
    exact ofForm_formOf hlt he hnormal
  · have hlog : (2 * fieldUnit).log2 = 53 := by decide
    have hbits : (e + (1 : Nat) - minExponent).toNat * fieldUnit + fieldUnit =
        (e - minExponent).toNat * fieldUnit + 2 * fieldUnit := by
      rw [fieldUnit_eq]
      omega
    rw [shiftToTargetExponent_eq .exact (k := 1) (by rw [totalExponent]; omega)]
    change ofForm (formOf fieldUnit (e + (1 : Nat))) = _
    rw [ofForm_formOf (by decide) (by omega) (.inl (Nat.le_refl _)), hbits]

/-- Rounding drops bits, rounds what is left and drops the bit that this may have carried to. -/
theorem roundWithAccuracy_eq {m : Nat} {e d : Int} {acc : Accuracy} {em : ExtendedMantissa}
    (hfirst : shiftToTargetExponent Format.binary64 m e acc = (em, d)) :
    roundWithAccuracy Format.binary64 .positive m e acc =
      formOf (shiftToTargetExponent Format.binary64 em.roundedMantissa d .exact).1.mantissa
        (shiftToTargetExponent Format.binary64 em.roundedMantissa d .exact).2 := by
  unfold roundWithAccuracy
  rw [hfirst]
  rfl

section Dropping

variable {m : Nat} {e : Int} {r : Ratio} (hnum : 0 < r.num) (hden : 0 < r.den)

include hnum hden

/-- The exponent to which bits are dropped is the place of the last bit that is kept. -/
theorem targetExponent_eq_lastPlace (hlo : m * (2 : ℚ) ^ e ≤ r.toRat)
    (hhi : r.toRat < (m + 1) * (2 : ℚ) ^ e) (he : e ≤ lastPlace r) :
    Format.binary64.targetExponent (totalExponent m e) = lastPlace r := by
  have hpow : (0 : ℚ) < 2 ^ e := zpow_pos two_pos e
  rw [lastPlace, minExponent] at he ⊢
  rw [targetExponent_eq, totalExponent]
  rcases Nat.eq_zero_or_pos m with rfl | hm
  · -- less than one unit, which is only the case below the smallest double
    have hsmall : (2 : ℚ) ^ r.floorLog2 < 2 ^ e := by
      refine (Ratio.le_floorLog2 hnum hden).trans_lt (hhi.trans_le (le_of_eq ?_))
      rw [Nat.cast_zero, zero_add, one_mul]
    rw [zpow_lt_zpow_iff_right₀ one_lt_two] at hsmall
    rw [Nat.log2_zero]
    omega
  · have hlog : r.floorLog2 = m.log2 + e := by
      refine floorLog2_eq hnum hden ?_ ?_
      · rw [zpow_add₀ two_ne_zero]
        exact (mul_le_mul_of_nonneg_right (Ratio.two_zpow_log2_le hm) hpow.le).trans hlo
      · have hsucc : (m : ℚ) + 1 ≤ 2 ^ ((m.log2 : Int) + 1) := by
          exact_mod_cast Nat.lt_log2_self (n := m)
        rw [add_right_comm, zpow_add₀ two_ne_zero]
        exact hhi.trans_le (mul_le_mul_of_nonneg_right hsucc hpow.le)
    omega

/-- A rounded significand fits into its double, or it has one bit more. -/
theorem round_inLastPlaces_bounds :
    (inLastPlaces r).round ≤ 2 * fieldUnit ∧
      (fieldUnit ≤ (inLastPlaces r).round ∨ lastPlace r = minExponent) := by
  have hd := den_inLastPlaces_pos (r := r) hden
  constructor
  · refine Ratio.round_le hd ?_
    rw [fieldUnit_eq]
    exact_mod_cast (toRat_inLastPlaces_lt hnum hden).le
  · rcases Int.lt_or_le minExponent (lastPlace r) with hlt | hle
    · refine .inl (Ratio.le_round hd ?_)
      rw [fieldUnit_eq]
      exact_mod_cast le_toRat_inLastPlaces hnum hden hlt
    · exact .inr (Int.le_antisymm hle (Int.le_max_right _ _))

/-- **Dropping bits finds the nearest double.** -/
theorem ofForm_roundWithAccuracy {acc : Accuracy}
    (hm : Describes (ExtendedMantissa.ofMantissaAndAccuracy m acc) (r.toRat / 2 ^ e))
    (he : e ≤ lastPlace r) :
    ofForm (roundWithAccuracy Format.binary64 .positive m e acc) = nearest r := by
  have hpow : (0 : ℚ) < 2 ^ e := zpow_pos two_pos e
  have hbounds := hm.bounds
  rw [mantissa_ofMantissaAndAccuracy, le_div_iff₀ hpow, div_lt_iff₀ hpow] at hbounds
  have htarget := targetExponent_eq_lastPlace hnum hden hbounds.1 hbounds.2 he
  obtain ⟨k, hk⟩ := Int.le.dest he
  have hfirst := shiftToTargetExponent_eq (m := m) (e := e) acc (k := k) (by rw [htarget]; omega)
  rw [hk] at hfirst
  have hscaled : r.toRat / 2 ^ e / 2 ^ k = (inLastPlaces r).toRat := by
    rw [div_div, ← zpow_natCast, ← zpow_add₀ two_ne_zero, hk, ← toRat_inLastPlaces r,
      mul_div_cancel_right₀ _ (zpow_ne_zero _ two_ne_zero)]
  have hdescribes := hm.shiftRight k
  rw [hscaled] at hdescribes
  have hround := hdescribes.roundedMantissa_eq (den_inLastPlaces_pos hden)
  obtain ⟨hle, hnormal⟩ := round_inLastPlaces_bounds hnum hden
  have hmin : minExponent ≤ lastPlace r := Int.le_max_right _ _
  rw [nearest_eq hnum, nearestBits, ← ofForm_carry hle hmin hnormal]
  rw [roundWithAccuracy_eq hfirst, hround]

end Dropping

end Argand.Binary64
