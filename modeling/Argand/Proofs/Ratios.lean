import Argand.Ratio
import Mathlib

/-!
# Ratios as rational numbers

What is computed with numerators and denominators, said about rational numbers: scaling,
rounding and orders of magnitude.

## Main definitions

* `Ratio.toRat r` — the ratio as a rational number.

## Main results

* `Ratio.abs_round_sub_le`, `Ratio.even_round` — a ratio is rounded to a nearest natural number,
  and to an even one if there are two.
* `Ratio.round_eq` — and there is no other such number.
* `Ratio.round_lt_iff` — where rounding up to an even number begins.
* `Ratio.le_floorLog2`, `Ratio.lt_floorLog2` — **the order of magnitude is exact.**
-/

namespace Argand.Ratio

/-- The ratio as a rational number. -/
def toRat (r : Ratio) : ℚ := r.num / r.den

variable {r : Ratio}

/-! ### Powers -/

/-- A power is a quotient of natural numbers. -/
theorem zpow_eq_div (base : Nat) (hbase : 0 < base) (e : Int) :
    (base : ℚ) ^ e = (base.pow e.toNat : Nat) / (base.pow (-e).toNat : Nat) := by
  have hne : (base : ℚ) ≠ 0 := Nat.cast_ne_zero.mpr (Nat.ne_of_gt hbase)
  rw [Nat.pow_eq, Nat.pow_eq, Nat.cast_pow, Nat.cast_pow, ← zpow_natCast, ← zpow_natCast,
    ← zpow_sub₀ hne, Int.toNat_sub_toNat_neg]

theorem toRat_scale (base : Nat) (hbase : 0 < base) (e : Int) (r : Ratio) :
    (r.scale base e).toRat = r.toRat * (base : ℚ) ^ e := by
  rw [zpow_eq_div base hbase, toRat, toRat, scale, Nat.cast_mul, Nat.cast_mul, div_mul_div_comm]

theorem den_scale_pos (base : Nat) (hbase : 0 < base) (e : Int) (hden : 0 < r.den) :
    0 < (r.scale base e).den :=
  Nat.mul_pos hden (Nat.pow_pos hbase)

theorem toRat_nonneg (r : Ratio) : 0 ≤ r.toRat := div_nonneg (Nat.cast_nonneg _) (Nat.cast_nonneg _)

theorem powerLe_iff (base : Nat) (hbase : 0 < base) (hden : 0 < r.den) {e : Int} :
    r.powerLe base e = true ↔ (base : ℚ) ^ e ≤ r.toRat := by
  have hpow : (0 : ℚ) < (base.pow (-e).toNat : Nat) := Nat.cast_pos.mpr (Nat.pow_pos hbase)
  rw [powerLe, decide_eq_true_eq, zpow_eq_div base hbase, toRat,
    div_le_div_iff₀ hpow (Nat.cast_pos.mpr hden)]
  exact_mod_cast Iff.rfl

/-! ### Rounding -/

/-- A ratio is at most half a unit away from what it is rounded to. -/
theorem abs_round_sub_le (hden : 0 < r.den) : |(r.round : ℚ) - r.toRat| ≤ 1 / 2 := by
  have hd : (0 : ℚ) < r.den := Nat.cast_pos.mpr hden
  have hhi : 2 * ((r.round : ℚ) * r.den) ≤ 2 * r.num + r.den := by
    exact_mod_cast round_mul_le r hden
  have hlo : 2 * (r.num : ℚ) ≤ 2 * (r.round * r.den) + r.den := by
    exact_mod_cast le_round_mul r hden
  have hnum : r.toRat * r.den = r.num := div_mul_cancel₀ _ (ne_of_gt hd)
  rw [← hnum] at hhi hlo
  rw [abs_le]
  constructor <;> nlinarith

/-- A half goes to the even neighbour. -/
theorem even_round (hden : 0 < r.den) (h : |(r.round : ℚ) - r.toRat| = 1 / 2) :
    r.round % 2 = 0 := by
  have hd : (0 : ℚ) < r.den := Nat.cast_pos.mpr hden
  have hnum : r.toRat * r.den = r.num := div_mul_cancel₀ _ (ne_of_gt hd)
  have hhalf : 2 * (r.round * r.den) = 2 * r.num + r.den ∨
      2 * (r.round * r.den) + r.den = 2 * r.num := by
    rcases eq_or_eq_neg_of_abs_eq h with hplus | hminus
    · left
      have hcast : (2 * (r.round * r.den) : ℚ) = 2 * r.num + r.den := by
        rw [← hnum]
        linear_combination 2 * r.den * hplus
      exact_mod_cast hcast
    · right
      have hcast : (2 * (r.round * r.den) + r.den : ℚ) = 2 * r.num := by
        rw [← hnum]
        linear_combination 2 * r.den * hminus
      exact_mod_cast hcast
  have hdiv := Nat.div_add_mod r.num r.den
  have hmod := Nat.mod_lt r.num hden
  rw [Nat.mul_comm] at hdiv
  unfold round at hhalf ⊢
  split at hhalf
  · omega
  · split at hhalf
    · rw [Nat.add_mul] at hhalf
      omega
    · rw [if_neg ‹_›, if_neg ‹_›]
      omega

/-- A ratio is not near two whole numbers at once. -/
theorem one_le_abs_sub_add {m : Int} (hm : m ≠ r.round) :
    1 ≤ |(m : ℚ) - r.toRat| + |(r.round : ℚ) - r.toRat| := by
  have hint : 1 ≤ |m - r.round| := Int.one_le_abs (sub_ne_zero.mpr hm)
  have hone : (1 : ℚ) ≤ |(m : ℚ) - r.round| := by exact_mod_cast hint
  calc (1 : ℚ) ≤ |(m : ℚ) - r.round| := hone
    _ ≤ |(m : ℚ) - r.toRat| + |r.toRat - r.round| := abs_sub_le _ _ _
    _ = |(m : ℚ) - r.toRat| + |(r.round : ℚ) - r.toRat| := by rw [abs_sub_comm r.toRat]

/-- Any other whole number is at least half a unit away. -/
theorem half_le_abs_sub (hden : 0 < r.den) {m : Int} (hm : m ≠ r.round) :
    1 / 2 ≤ |(m : ℚ) - r.toRat| := by
  have hround := abs_round_sub_le hden
  have hone := one_le_abs_sub_add hm
  linarith

/-- **A ratio is rounded to a nearest whole number.** -/
theorem abs_round_sub_le_abs_sub (hden : 0 < r.den) (m : Int) :
    |(r.round : ℚ) - r.toRat| ≤ |(m : ℚ) - r.toRat| := by
  by_cases hm : m = r.round
  · rw [hm, Int.cast_natCast]
  · exact (abs_round_sub_le hden).trans (half_le_abs_sub hden hm)

/-- If another whole number is as near, the rounded ratio is even. -/
theorem even_round_of_ne (hden : 0 < r.den) {m : Int} (hm : m ≠ r.round)
    (h : |(m : ℚ) - r.toRat| ≤ |(r.round : ℚ) - r.toRat|) : r.round % 2 = 0 :=
  even_round hden (le_antisymm (abs_round_sub_le hden) ((half_le_abs_sub hden hm).trans h))

/-- **There is only one way to round**: to a number that is nearer than half a unit, or as far as
that and even. -/
theorem round_eq (hden : 0 < r.den) {n : Nat} (h : |(n : ℚ) - r.toRat| ≤ 1 / 2)
    (heven : |(n : ℚ) - r.toRat| = 1 / 2 → n % 2 = 0) : r.round = n := by
  by_contra hne
  have hm : (n : Int) ≠ r.round := by omega
  have hone := one_le_abs_sub_add hm
  have hround := abs_round_sub_le hden
  rw [Int.cast_natCast] at hone
  -- otherwise both are even, and they are next to each other
  have hn := heven (by linarith)
  have hround' := even_round hden (by linarith)
  have hnext : |(n : Int) - r.round| ≤ 1 := by
    have htriangle := abs_sub_le (n : ℚ) r.toRat r.round
    rw [abs_sub_comm r.toRat] at htriangle
    have hle : |(n : ℚ) - r.round| ≤ 1 := by linarith
    exact_mod_cast hle
  rw [abs_le] at hnext
  omega

/-- A ratio is not rounded past a whole number. -/
theorem round_le (hden : 0 < r.den) {m : Nat} (h : r.toRat ≤ m) : r.round ≤ m := by
  by_contra hlt
  have hlt : (m : ℚ) + 1 ≤ r.round := by exact_mod_cast Nat.lt_of_not_le hlt
  have hround := (abs_le.mp (abs_round_sub_le hden)).2
  linarith

theorem le_round (hden : 0 < r.den) {m : Nat} (h : m ≤ r.toRat) : m ≤ r.round := by
  by_contra hlt
  have hlt : (r.round : ℚ) + 1 ≤ m := by exact_mod_cast Nat.lt_of_not_le hlt
  have hround := (abs_le.mp (abs_round_sub_le hden)).1
  linarith

/-- A ratio is rounded up to an even number from half a unit before it. -/
theorem round_lt_iff (hden : 0 < r.den) {n : Nat} (hn : n % 2 = 0) :
    r.round < n ↔ r.toRat < n - 1 / 2 := by
  have hnear := abs_le.mp (abs_round_sub_le hden)
  constructor
  · intro hlt
    have hle : (r.round : ℚ) + 1 ≤ n := by exact_mod_cast hlt
    by_contra hge
    rw [not_lt] at hge
    -- it would be half a unit after the number before, which is odd
    have heq : (r.round : ℚ) + 1 = n := by linarith
    have htie : |(r.round : ℚ) - r.toRat| = 1 / 2 := by
      rw [abs_of_nonpos (by linarith)]
      linarith
    have heven := even_round hden htie
    have hnext : r.round + 1 = n := by exact_mod_cast heq
    omega
  · intro hlt
    have hcast : (r.round : ℚ) < n := by linarith
    exact_mod_cast hcast

/-! ### Orders of magnitude -/

theorem two_zpow_log2_le {n : Nat} (hn : 0 < n) : (2 : ℚ) ^ (n.log2 : Int) ≤ n := by
  rw [zpow_natCast]
  exact_mod_cast Nat.log2_self_le (Nat.ne_of_gt hn)

theorem lt_two_zpow_log2 (n : Nat) : (n : ℚ) < 2 ^ ((n.log2 : Int) + 1) := by
  have hlt : n < 2 ^ (n.log2 + 1) := Nat.lt_log2_self
  exact_mod_cast hlt

/-- The binary orders of magnitude of numerator and denominator give that of the ratio up to
one. -/
theorem two_zpow_guess (hnum : 0 < r.num) (hden : 0 < r.den) :
    (2 : ℚ) ^ ((r.num.log2 : Int) - r.den.log2 - 1) < r.toRat ∧
      r.toRat < 2 ^ ((r.num.log2 : Int) - r.den.log2 + 1) := by
  have hd : (0 : ℚ) < r.den := Nat.cast_pos.mpr hden
  have htwo : (2 : ℚ) ≠ 0 := two_ne_zero
  constructor
  · rw [toRat, lt_div_iff₀ hd]
    calc (2 : ℚ) ^ ((r.num.log2 : Int) - r.den.log2 - 1) * r.den
        < 2 ^ ((r.num.log2 : Int) - r.den.log2 - 1) * 2 ^ ((r.den.log2 : Int) + 1) :=
          mul_lt_mul_of_pos_left (lt_two_zpow_log2 _) (zpow_pos two_pos _)
      _ = 2 ^ (r.num.log2 : Int) := by rw [← zpow_add₀ htwo]; congr 1; ring
      _ ≤ r.num := two_zpow_log2_le hnum
  · rw [toRat, div_lt_iff₀ hd]
    calc (r.num : ℚ) < 2 ^ ((r.num.log2 : Int) + 1) := lt_two_zpow_log2 _
      _ = 2 ^ ((r.num.log2 : Int) - r.den.log2 + 1) * 2 ^ (r.den.log2 : Int) := by
          rw [← zpow_add₀ htwo]; congr 1; ring
      _ ≤ 2 ^ ((r.num.log2 : Int) - r.den.log2 + 1) * r.den :=
          mul_le_mul_of_nonneg_left (two_zpow_log2_le hden) (zpow_nonneg two_pos.le _)

/-- The order of magnitude is not too large. -/
theorem le_floorLog2 (hnum : 0 < r.num) (hden : 0 < r.den) : (2 : ℚ) ^ r.floorLog2 ≤ r.toRat := by
  unfold floorLog2
  dsimp only
  split
  · next h => exact_mod_cast (powerLe_iff 2 two_pos hden).mp h
  · exact (two_zpow_guess hnum hden).1.le

/-- The order of magnitude is not too small. -/
theorem lt_floorLog2 (hnum : 0 < r.num) (hden : 0 < r.den) :
    r.toRat < (2 : ℚ) ^ (r.floorLog2 + 1) := by
  unfold floorLog2
  dsimp only
  split
  · exact (two_zpow_guess hnum hden).2
  · next h =>
    rw [powerLe_iff 2 two_pos hden, not_le] at h
    rw [sub_add_cancel]
    exact_mod_cast h

end Argand.Ratio
