import Argand.Proofs.DoubleOrder
import Argand.Proofs.Rounding

/-!
# Rounded numbers

Every rational number is rounded to a double: to the nearest one, or to infinity if it is too large.
Rounding keeps the order, so a double that bounds a number also bounds what the number is rounded
to.  This is how much of an exact calculation survives in doubles.

## Main definitions

* `overflowBound` — where rounding to infinity begins.
* `rounded q` — the double nearest to a rational number, infinite from the bound on.

## Main results

* `isFinite_nearest_iff_lt`, `rounded_cases` — **what is below the bound is rounded to a nearest
  double**, what is not is rounded to infinity.
* `toRat_rounded_mono`, `rounded_toRat` — rounding keeps the order, and doubles as they are.
* `toRat_le_of_alike`, `le_toRat_of_alike` — doubles that bound a number bound the rounded number.
* `abs_toRat_rounded_sub_le` — rounding changes a number by at most one part in `2 ^ 53`.
-/

namespace Argand

/-- The size of a rational number as a ratio. -/
def Ratio.ofRat (q : ℚ) : Ratio := ⟨q.num.natAbs, q.den⟩

theorem Ratio.toRat_ofRat (q : ℚ) : (Ratio.ofRat q).toRat = |q| := by
  have hden : (0 : ℚ) < q.den := Nat.cast_pos.mpr q.den_pos
  rw [toRat, ofRat, Nat.cast_natAbs, Int.cast_abs]
  conv_rhs => rw [← Rat.num_div_den q, abs_div, abs_of_pos hden]

theorem Ratio.num_ofRat_pos {q : ℚ} (hq : q ≠ 0) : 0 < (Ratio.ofRat q).num :=
  Int.natAbs_pos.mpr (Rat.num_ne_zero.mpr hq)

theorem Ratio.den_ofRat_pos (q : ℚ) : 0 < (Ratio.ofRat q).den := q.den_pos

namespace Binary64

open Float.Model (Format UnpackedFloat totalExponent)
open Float.Model.UnpackedFloat (Sign Accuracy ExtendedMantissa roundWithAccuracy)

/-! ### Overflow -/

/-- From here on numbers are rounded to infinity: half a unit after the largest double. -/
def overflowBound : ℚ := (2 ^ 54 - 1) * 2 ^ (970 : Int)

theorem maxFinite_eq : maxFinite = (2 ^ 54 - 2) * 2 ^ (970 : Int) := by
  have hpow : (2 : ℚ) ^ 971 = 2 * 2 ^ (970 : Int) := by
    rw [zpow_ofNat]
    exact pow_succ' 2 970
  rw [maxFinite, hpow]
  ring

theorem maxFinite_lt_overflowBound : maxFinite < overflowBound := by
  rw [maxFinite_eq, overflowBound]
  exact mul_lt_mul_of_pos_right (by norm_num) (zpow_pos two_pos _)

theorem overflowBound_pos : 0 < overflowBound :=
  mul_pos (by norm_num) (zpow_pos two_pos _)

/-- **Numbers are rounded to infinity from the overflow bound on.** -/
theorem isFinite_nearest_iff_lt {r : Ratio} (hnum : 0 < r.num) (hden : 0 < r.den) :
    (nearest r).isFinite = true ↔ r.toRat < overflowBound := by
  have hd := den_inLastPlaces_pos (r := r) hden
  obtain ⟨hround, hlead⟩ := round_inLastPlaces_bounds hnum hden
  have hmin : minExponent = -1074 := rfl
  have hunit : (0 : ℚ) < 2 ^ (970 : Int) := zpow_pos two_pos _
  rw [isFinite_nearest_iff hnum, nearestBits, infinityBits, ← toRat_inLastPlaces r, overflowBound]
  rw [fieldUnit_eq] at hround hlead ⊢
  rcases lt_trichotomy (lastPlace r) 971 with hlt | heq | hgt
  · -- even 53 ones do not come up to the bound
    refine iff_of_true (by omega) ?_
    calc (inLastPlaces r).toRat * (2 : ℚ) ^ lastPlace r < 2 ^ 53 * 2 ^ lastPlace r :=
          mul_lt_mul_of_pos_right (toRat_inLastPlaces_lt hnum hden) (zpow_pos two_pos _)
      _ ≤ 2 ^ 53 * 2 ^ (970 : Int) :=
          mul_le_mul_of_nonneg_left (zpow_le_zpow_right₀ one_le_two (by omega)) (by positivity)
      _ ≤ (2 ^ 54 - 1) * 2 ^ (970 : Int) := mul_le_mul_of_nonneg_right (by norm_num) hunit.le
  · -- with the largest exponent the significand decides, and a half goes up
    have hplace : (2 : ℚ) ^ lastPlace r = 2 * 2 ^ (970 : Int) := by
      rw [heq, ← zpow_one_add₀ two_ne_zero]
      rfl
    have hbound : (inLastPlaces r).toRat * (2 : ℚ) ^ lastPlace r < (2 ^ 54 - 1) * 2 ^ (970 : Int) ↔
        (inLastPlaces r).toRat < (2 ^ 53 : Nat) - 1 / 2 := by
      rw [hplace, ← mul_assoc, mul_lt_mul_iff_left₀ hunit]
      push_cast
      constructor <;> intro h <;> linarith
    rw [hbound, ← Ratio.round_lt_iff hd (by decide), heq]
    omega
  · -- a larger exponent is beyond it
    refine iff_of_false (by omega) (not_lt.mpr ?_)
    calc (2 ^ 54 - 1) * (2 : ℚ) ^ (970 : Int) ≤ 2 ^ 52 * 2 ^ (972 : Int) := by
          rw [show (972 : Int) = 2 + 970 from rfl, zpow_add₀ two_ne_zero, ← mul_assoc]
          exact mul_le_mul_of_nonneg_right (by norm_num) hunit.le
      _ ≤ 2 ^ 52 * 2 ^ lastPlace r :=
          mul_le_mul_of_nonneg_left (zpow_le_zpow_right₀ one_le_two (by omega)) (by positivity)
      _ ≤ (inLastPlaces r).toRat * 2 ^ lastPlace r :=
          mul_le_mul_of_nonneg_right (le_toRat_inLastPlaces hnum hden (by omega))
            (zpow_nonneg two_pos.le _)

/-! ### The double nearest to a rational number -/

/-- The double nearest to a rational number; infinite from the overflow bound on. -/
def rounded (q : ℚ) : Float := signed (decide (q < 0)) (nearest (.ofRat q))

@[simp] theorem rounded_zero : rounded 0 = 0 := rfl

theorem rounded_of_pos {q : ℚ} (hq : 0 < q) : rounded q = nearest (.ofRat q) := by
  rw [rounded, decide_eq_false (not_lt.mpr hq.le), signed_false]

theorem rounded_neg_of_pos {q : ℚ} (hq : 0 < q) : rounded (-q) = -rounded q := by
  have hratio : Ratio.ofRat (-q) = Ratio.ofRat q := by
    rw [Ratio.ofRat, Rat.num_neg_eq_neg_num, Int.natAbs_neg, Rat.den_neg_eq_den]
    rfl
  rw [rounded_of_pos hq, rounded, decide_eq_true (neg_lt_zero.mpr hq), hratio, signed_true]

theorem isFinite_signed (negative : Bool) (x : Float) :
    (signed negative x).isFinite = x.isFinite := by
  cases negative with
  | false => rfl
  | true => exact isFinite_neg x

theorem isFinite_rounded_iff {q : ℚ} : (rounded q).isFinite = true ↔ |q| < overflowBound := by
  by_cases hq : q = 0
  · subst hq
    rw [abs_zero]
    exact iff_of_true rfl overflowBound_pos
  · rw [rounded, isFinite_signed,
      isFinite_nearest_iff_lt (Ratio.num_ofRat_pos hq) (Ratio.den_ofRat_pos q), Ratio.toRat_ofRat]

/-- **What is not rounded to infinity is rounded to a nearest double.** -/
theorem isNearest_rounded {q : ℚ} (h : (rounded q).isFinite = true) : IsNearest (rounded q) q := by
  by_cases hq : q = 0
  · subst hq
    exact isNearest_zero le_rfl (by rw [mul_zero]; exact zpow_pos two_pos _)
  · rw [rounded, isFinite_signed] at h
    have hnear := (isNearest_nearest (Ratio.num_ofRat_pos hq) (Ratio.den_ofRat_pos q) h).signed
      (decide (q < 0))
    rw [Ratio.toRat_ofRat] at hnear
    have hsign : (if decide (q < 0) = true then -|q| else |q|) = q := by
      by_cases hneg : q < 0
      · rw [if_pos (decide_eq_true hneg), abs_of_neg hneg, neg_neg]
      · rw [if_neg (by simpa using hneg), abs_of_nonneg (not_lt.mp hneg)]
    rw [hsign] at hnear
    exact hnear

/-- What is rounded to infinity keeps its sign. -/
theorem rounded_cases (q : ℚ) :
    |q| < overflowBound ∧ IsNearest (rounded q) q ∨ overflowBound ≤ q ∧ rounded q = infinity ∨
      q ≤ -overflowBound ∧ rounded q = -infinity := by
  by_cases h : (rounded q).isFinite = true
  · exact .inl ⟨isFinite_rounded_iff.mp h, isNearest_rounded h⟩
  have hbound := not_lt.mp (mt isFinite_rounded_iff.mpr h)
  have hq : q ≠ 0 := abs_pos.mp (overflowBound_pos.trans_le hbound)
  have hinf : nearest (.ofRat q) = infinity := by
    refine nearest_eq_infinity (Ratio.num_ofRat_pos hq) (Nat.le_of_not_lt fun hlt => h ?_)
    rw [rounded, isFinite_signed]
    exact (isFinite_nearest_iff (Ratio.num_ofRat_pos hq)).mpr hlt
  rcases lt_or_gt_of_ne hq with hneg | hpos
  · rw [abs_of_neg hneg] at hbound
    rw [rounded, hinf, decide_eq_true hneg]
    exact .inr (.inr ⟨by linarith, rfl⟩)
  · rw [abs_of_pos hpos] at hbound
    rw [rounded, hinf, decide_eq_false (not_lt.mpr hpos.le)]
    exact .inr (.inl ⟨hbound, rfl⟩)

theorem isNaN_rounded (q : ℚ) : (rounded q).isNaN = false := by
  rcases rounded_cases q with ⟨-, h⟩ | ⟨-, h⟩ | ⟨-, h⟩
  · exact isNaN_of_isFinite h.finite
  · rw [h]
    decide
  · rw [h]
    decide

/-- Of two numbers in order no nearest doubles are in the wrong order. -/
theorem IsNearest.toRat_le {x y : Float} {p q : ℚ} (hx : IsNearest x p) (hy : IsNearest y q)
    (h : p < q) : toRat x ≤ toRat y := by
  by_contra hlt
  rw [not_le, ← sub_pos] at hlt
  -- otherwise both numbers lie on the wrong side of the middle
  have hp := sq_le_sq.mpr (hx.nearest y hy.finite)
  have hq := sq_le_sq.mpr (hy.nearest x hx.finite)
  have hp' : (toRat x - toRat y) * (toRat x + toRat y - 2 * p) ≤ 0 := by linarith
  have hq' : 0 ≤ (toRat x - toRat y) * (toRat x + toRat y - 2 * q) := by linarith
  have hple := nonpos_of_mul_nonpos_right hp' hlt
  have hqge := nonneg_of_mul_nonneg_right hq' hlt
  linarith

/-- **Rounding keeps the order.** -/
theorem toRat_rounded_mono {p q : ℚ} (h : p ≤ q) : toRat (rounded p) ≤ toRat (rounded q) := by
  rcases h.lt_or_eq with hlt | rfl
  · have hpos := overflowBound_pos
    rcases rounded_cases p with ⟨hp, hnear⟩ | ⟨hp, hinf⟩ | ⟨-, hinf⟩
    · rcases rounded_cases q with ⟨-, hnear'⟩ | ⟨-, hinf'⟩ | ⟨hq, -⟩
      · exact hnear.toRat_le hnear' hlt
      · rw [hinf']
        exact (toRat_between (isNaN_rounded p)).2
      · linarith [(abs_lt.mp hp).1]
    · rcases rounded_cases q with ⟨hq, -⟩ | ⟨-, hinf'⟩ | ⟨hq, -⟩
      · linarith [(abs_lt.mp hq).2]
      · rw [hinf, hinf']
      · linarith
    · rw [hinf]
      exact (toRat_between (isNaN_rounded q)).1
  · exact le_rfl

/-- **Rounding keeps a double as it is.** -/
theorem rounded_toRat {x : Float} (hx : x.isFinite = true) : Alike (rounded (toRat x)) x := by
  have hfinite : (rounded (toRat x)).isFinite = true :=
    isFinite_rounded_iff.mpr ((abs_toRat_le hx).trans_lt maxFinite_lt_overflowBound)
  have hnear := (isNearest_rounded hfinite).nearest x hx
  rw [sub_self, abs_zero, abs_nonpos_iff, sub_eq_zero] at hnear
  exact (alike_iff_toRat (isNaN_rounded _) (isNaN_of_isFinite hx)).mpr hnear

theorem toRat_rounded_toRat {y : Float} (hy : y.isFinite = true) :
    toRat (rounded (toRat y)) = toRat y :=
  (alike_iff_toRat (isNaN_rounded _) (isNaN_of_isFinite hy)).mp (rounded_toRat hy)

/-! ### What is known of a rounded number -/

theorem Alike.isFinite_eq {x y : Float} (h : Alike x y) : x.isFinite = y.isFinite := by
  rcases h with rfl | ⟨s, hx, hy⟩
  · rfl
  · rw [Binary64.isFinite_eq, Binary64.isFinite_eq, hx, hy]
    rfl

section Rounded

variable {x : Float} {q : ℚ} (h : Alike x (rounded q))

include h

theorem isFinite_iff_of_alike : x.isFinite = true ↔ |q| < overflowBound := by
  rw [h.isFinite_eq, isFinite_rounded_iff]

theorem isNaN_of_alike : x.isNaN = false := by
  rcases h with rfl | ⟨s, hx, -⟩
  · exact isNaN_rounded q
  · rw [Bool.eq_false_iff, ne_eq, isNaN_iff, hx]
    nofun

theorem toRat_of_alike : toRat x = toRat (rounded q) :=
  (alike_iff_toRat (isNaN_of_alike h) (isNaN_rounded q)).mp h

/-- What is not above a double is not rounded above it. -/
theorem toRat_le_of_alike {y : Float} (hy : y.isFinite = true) (hq : q ≤ toRat y) :
    toRat x ≤ toRat y := by
  rw [toRat_of_alike h, ← toRat_rounded_toRat hy]
  exact toRat_rounded_mono hq

/-- What is not below a double is not rounded below it. -/
theorem le_toRat_of_alike {y : Float} (hy : y.isFinite = true) (hq : toRat y ≤ q) :
    toRat y ≤ toRat x := by
  rw [toRat_of_alike h, ← toRat_rounded_toRat hy]
  exact toRat_rounded_mono hq

/-- What is rounded to infinity from above is infinite. -/
theorem eq_infinity_of_alike (hq : overflowBound ≤ q) : x = infinity := by
  have hpos := overflowBound_pos
  rcases rounded_cases q with ⟨hlt, -⟩ | ⟨-, hinf⟩ | ⟨hle, -⟩
  · exact absurd hq (not_le.mpr (abs_lt.mp hlt).2)
  · rw [hinf] at h
    exact (h.symm.eq_of_not_zero rfl).symm
  · linarith

end Rounded

/-- **Rounding changes a number by at most one part in `2 ^ 53`**, unless it is below the smallest
normal double; there multiples of the smallest double are kept as they are. -/
theorem abs_toRat_rounded_sub_le {q : ℚ} (hq : 0 < q) (hfinite : q < overflowBound)
    (h : 2 ^ (-1022 : Int) ≤ q ∨ ∃ m : Int, q = m * 2 ^ minExponent) :
    |toRat (rounded q) - q| ≤ q / 2 ^ 53 := by
  have hnum := Ratio.num_ofRat_pos hq.ne'
  have hden := Ratio.den_ofRat_pos q
  have hvalue : (Ratio.ofRat q).toRat = q := by rw [Ratio.toRat_ofRat, abs_of_pos hq]
  have hnearest : (nearest (.ofRat q)).isFinite = true :=
    (isFinite_nearest_iff_lt hnum hden).mpr (by rwa [hvalue])
  have hlo := Ratio.le_floorLog2 hnum hden
  have hhi := Ratio.lt_floorLog2 hnum hden
  rw [hvalue] at hlo hhi
  rw [rounded_of_pos hq]
  rcases Int.lt_or_le (Ratio.ofRat q).floorLog2 (-1022) with hsmall | hnormal
  · have hplace : lastPlace (.ofRat q) = minExponent := by
      rw [lastPlace, minExponent]
      omega
    have hbelow : q < 2 ^ (-1022 : Int) :=
      hhi.trans_le (zpow_le_zpow_right₀ one_le_two (by omega))
    obtain ⟨m, hm⟩ := h.resolve_left (not_le.mpr hbelow)
    have herror := abs_toRat_nearest_sub_le hnum hden hnearest m
    rw [hplace, hvalue, ← hm, sub_self, abs_zero] at herror
    exact herror.trans (div_nonneg hq.le (by positivity))
  · have hplace : lastPlace (.ofRat q) = (Ratio.ofRat q).floorLog2 - 52 := by
      rw [lastPlace, minExponent]
      omega
    have herror := abs_mul_lastPlace_sub (.ofRat q) (inLastPlaces (.ofRat q)).round
    rw [← (toRat_nearest hnum hden hnearest).1, hvalue] at herror
    rw [herror, hplace]
    calc |((inLastPlaces (.ofRat q)).round : ℚ) - (inLastPlaces (.ofRat q)).toRat| *
          2 ^ ((Ratio.ofRat q).floorLog2 - 52)
        ≤ 1 / 2 * 2 ^ ((Ratio.ofRat q).floorLog2 - 52) :=
          mul_le_mul_of_nonneg_right (Ratio.abs_round_sub_le (den_inLastPlaces_pos hden))
            (zpow_nonneg two_pos.le _)
      _ = 2 ^ (Ratio.ofRat q).floorLog2 / 2 ^ 53 := by
          rw [zpow_sub₀ two_ne_zero]
          norm_num [div_eq_mul_inv]
          ring
      _ ≤ q / 2 ^ 53 := div_le_div_of_nonneg_right hlo (by positivity)

theorem toRat_rounded_le {q : ℚ} (hq : 0 ≤ q) (hfinite : q < overflowBound)
    (h : 2 ^ (-1022 : Int) ≤ q ∨ ∃ m : Int, q = m * 2 ^ minExponent) :
    toRat (rounded q) ≤ q * (1 + 1 / 2 ^ 53) := by
  rcases hq.eq_or_lt with rfl | hpos
  · rw [rounded_zero, toRat_zero, zero_mul]
  · have herror := (abs_le.mp (abs_toRat_rounded_sub_le hpos hfinite h)).2
    linarith

end Binary64

end Argand
