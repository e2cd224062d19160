import Argand.Domain
import Argand.Proofs.RoundedArithmetic

/-!
# Sampling a domain

The samples of a domain are counted by a rounded quotient of a rounded difference, and each of them
is a rounded sum with a rounded product.  In exact numbers the last sample would not come to lie
beyond the upper bound.  Here three roundings stand between the count and the bound, and they can
lift the last sample over it; but they do not add up to a whole step as long as there are fewer than
`2 ^ 51` samples, so that it is never more than the last one.

## Main definitions

* `Domain.Proper` — finite bounds in order and a finite step that goes up.
* `Domain.SampledInside` — there are samples, as many as are counted, and they lie between the bounds.

## Main results

* `proper_of_make` — a domain that was made is proper.
* `isFinite_quotient_iff` — the samples can be counted if the quotient does not overflow.
* `sample_mono`, `low_le_sample` — samples go up, from the lower bound on.
* `sample_le_high` — **only the last sample can lie beyond the upper bound.**
* `sampledInside_iff` — when a domain is sampled inside itself.
-/

namespace Argand

open Binary64

/-- **The largest integer that is not above a double.** -/
theorem Binary64.floor?_eq {x : Float} (hx : x.isFinite = true) : floor? x = some ⌊toRat x⌋ := by
  have hfloor (a : Int) : ⌊(a : ℚ) / (decode x).magnitude.den⌋ = a / (decode x).magnitude.den :=
    Rat.floor_intCast_div_natCast a _
  rw [floor?, if_pos hx, toRat, Ratio.toRat]
  dsimp only
  split
  · rw [← hfloor, Int.cast_neg, Int.cast_natCast, neg_div]
  · rw [← hfloor, Int.cast_natCast]

namespace Domain

/-! ### Proper domains -/

/-- Finite bounds in order and a finite step that goes up. -/
structure Proper (d : Domain) : Prop where
  low : d.low.isFinite = true
  high : d.high.isFinite = true
  step : d.step.isFinite = true
  ordered : toRat d.low ≤ toRat d.high
  upward : 0 < toRat d.step

theorem toRat_defaultStep_pos : 0 < toRat defaultStep := by
  have hlt := lt_iff_toRat (x := 0) (y := defaultStep) (by decide) (by decide)
  rw [toRat_zero] at hlt
  exact hlt.mp (by decide +kernel)

/-- A domain that was made is proper. -/
theorem proper_of_make {minimum maximum step : Float} {d : Domain}
    (h : make minimum maximum step = .ok d) : d.Proper := by
  rw [make] at h
  split at h
  · cases h
  · next hbounds =>
    split at h
    · cases h
    · next hstep =>
      obtain ⟨hmin, hmax⟩ : minimum.isFinite = true ∧ maximum.isFinite = true := by
        simpa using hbounds
      have hfinite : step.isFinite = true := by simpa using hstep
      have hlt := lt_iff_toRat (isNaN_of_isFinite hmin) (isNaN_of_isFinite hmax)
      have hgt := lt_iff_toRat (isNaN_of_isFinite hmax) (isNaN_of_isFinite hmin)
      cases h
      refine ⟨?_, ?_, ?_, ?_, ?_⟩
      · dsimp only
        split <;> assumption
      · dsimp only
        split <;> assumption
      · dsimp only
        split
        · decide
        · rw [isFinite_abs, hfinite]
      · dsimp only
        split <;> split <;> rename_i h1 h2 <;> rw [hlt] at h2 <;> rw [hgt] at h1 <;> linarith
      · dsimp only
        split
        · exact toRat_defaultStep_pos
        · next hzero =>
          rw [toRat_abs hfinite, abs_pos, ne_eq, ← beq_zero_iff_toRat hfinite]
          exact hzero

/-! ### How many samples there are -/

namespace Proper

variable {d : Domain} (hd : d.Proper)

include hd

/-- The length of the interval overflows, or it is the difference of the bounds, rounded. -/
theorem quotient_cases : (d.high - d.low = infinity ∧ (d.high - d.low) / d.step = infinity) ∨
    (d.high - d.low).isFinite = true ∧
      Alike ((d.high - d.low) / d.step) (rounded (toRat (d.high - d.low) / toRat d.step)) := by
  have hdifference := alike_sub hd.high hd.low
  have hnonneg : toRat d.high - toRat d.low ≥ 0 := sub_nonneg.mpr hd.ordered
  rcases lt_or_ge (toRat d.high - toRat d.low) overflowBound with hlt | hge
  · have hfinite : (d.high - d.low).isFinite = true := by
      rw [isFinite_iff_of_alike hdifference, abs_of_nonneg hnonneg]
      exact hlt
    exact .inr ⟨hfinite, alike_div hfinite hd.step hd.upward.ne'⟩
  · have hinf := eq_infinity_of_alike hdifference hge
    rw [hinf]
    exact .inl ⟨rfl, infinity_div hd.step hd.upward⟩

theorem difference_nonneg : 0 ≤ toRat (d.high - d.low) := by
  rw [← toRat_zero]
  refine le_toRat_of_alike (alike_sub hd.high hd.low) rfl ?_
  rw [toRat_zero]
  exact sub_nonneg.mpr hd.ordered

/-- The quotient is never negative. -/
theorem quotient_nonneg : 0 ≤ toRat ((d.high - d.low) / d.step) := by
  rcases hd.quotient_cases with ⟨-, h⟩ | ⟨-, h⟩
  · rw [h, toRat_infinity]
    exact zpow_nonneg two_pos.le _
  · rw [← toRat_zero]
    refine le_toRat_of_alike h rfl ?_
    rw [toRat_zero]
    exact div_nonneg (hd.difference_nonneg) hd.upward.le

end Proper

/-- The samples can be counted if the quotient is finite; then there is at least one. -/
theorem count_eq_ok_iff {d : Domain} {n : Int} :
    d.count = .ok n ↔ ((d.high - d.low) / d.step).isFinite = true ∧
      n = ⌊toRat ((d.high - d.low) / d.step)⌋ + 1 := by
  rw [count]
  by_cases hfinite : ((d.high - d.low) / d.step).isFinite = true
  · rw [floor?_eq hfinite]
    dsimp only
    rw [Except.ok.injEq, eq_comm]
    exact (and_iff_right hfinite).symm
  · rw [floor?, if_neg hfinite]
    exact iff_of_false nofun fun h => hfinite h.1

theorem samples_eq_ok_iff {d : Domain} {xs : List Float} :
    d.samples = .ok xs ↔ ∃ n, d.count = .ok n ∧ 8 * n ≤ maxLength ∧
      xs = (List.range n.toNat).map d.sample := by
  rw [samples]
  cases d.count with
  | error e => simp
  | ok n =>
    simp only [Except.ok.injEq, exists_eq_left']
    split
    · next hlong =>
      refine iff_of_false (fun h => by cases h) fun h => ?_
      rw [maxLength] at hlong h
      omega
    · split
      · next hbig =>
        exact iff_of_false (fun h => by cases h) fun h => absurd h.1 (Int.not_le.mpr hbig)
      · next hbig =>
        rw [Except.ok.injEq, eq_comm]
        exact (and_iff_right (Int.not_lt.mp hbig)).symm

/-! ### Where the samples lie -/

namespace Proper

variable {d : Domain} (hd : d.Proper)

include hd

/-- The distance of a sample from the lower bound. -/
theorem alike_offset {i : Nat} (hi : i < 2 ^ 63) :
    Alike (Float.ofNat i * d.step) (rounded (toRat (Float.ofNat i) * toRat d.step)) :=
  alike_mul (isFinite_ofNat hi) hd.step

theorem toRat_offset_mono {i j : Nat} (hij : i ≤ j) (hj : j < 2 ^ 63) :
    toRat (Float.ofNat i * d.step) ≤ toRat (Float.ofNat j * d.step) := by
  rw [toRat_of_alike (hd.alike_offset (hij.trans_lt hj)), toRat_of_alike (hd.alike_offset hj)]
  exact toRat_rounded_mono (mul_le_mul_of_nonneg_right (toRat_ofNat_mono hij) hd.upward.le)

theorem offset_nonneg {i : Nat} (hi : i < 2 ^ 63) : 0 ≤ toRat (Float.ofNat i * d.step) := by
  rw [← toRat_zero]
  refine le_toRat_of_alike (hd.alike_offset hi) rfl ?_
  rw [toRat_zero]
  exact mul_nonneg (toRat_ofNat_nonneg i) hd.upward.le

theorem isNaN_sample {i : Nat} (hi : i < 2 ^ 63) : (d.sample i).isNaN = false :=
  isNaN_add hd.low (isNaN_of_alike (hd.alike_offset hi)) (hd.offset_nonneg hi)

theorem toRat_sample_mono {i j : Nat} (hij : i ≤ j) (hj : j < 2 ^ 63) :
    toRat (d.sample i) ≤ toRat (d.sample j) :=
  toRat_add_le hd.low (isNaN_of_alike (hd.alike_offset (hij.trans_lt hj)))
    (hd.offset_nonneg (hij.trans_lt hj)) (isNaN_of_alike (hd.alike_offset hj))
    (hd.toRat_offset_mono hij hj)

/-- Samples go up. -/
theorem sample_mono {i j : Nat} (hij : i ≤ j) (hj : j < 2 ^ 63) : d.sample i ≤ d.sample j :=
  (le_iff_toRat (hd.isNaN_sample (hij.trans_lt hj)) (hd.isNaN_sample hj)).mpr
    (hd.toRat_sample_mono hij hj)

/-- The first sample is the lower bound. -/
theorem toRat_sample_zero : toRat (d.sample 0) = toRat d.low := by
  have hoffset : toRat (Float.ofNat 0 * d.step) = 0 := by
    rw [toRat_of_alike (hd.alike_offset (by decide)), toRat_ofNat (by decide), Nat.cast_zero,
      zero_mul, rounded_zero, toRat_zero]
  have hfinite : (Float.ofNat 0 * d.step).isFinite = true := by
    rw [isFinite_iff_of_alike (hd.alike_offset (by decide)), toRat_ofNat (by decide), Nat.cast_zero,
      zero_mul, abs_zero]
    exact overflowBound_pos
  have hsum := alike_add hd.low hfinite
  rw [hoffset, add_zero] at hsum
  exact (toRat_of_alike hsum).trans (toRat_rounded_toRat hd.low)

theorem low_le_sample {i : Nat} (hi : i < 2 ^ 63) : d.low ≤ d.sample i := by
  rw [le_iff_toRat (isNaN_of_isFinite hd.low) (hd.isNaN_sample hi), ← hd.toRat_sample_zero]
  exact hd.toRat_sample_mono (Nat.zero_le i) hi

end Proper

/-! ### The upper bound -/

/-- Three roundings do not make up for a step. -/
theorem mul_le_of_rounded {interval difference quotient step i : ℚ} (hstep : 0 < step)
    (hdifference : difference ≤ interval * (1 + 1 / 2 ^ 53))
    (hquotient : quotient ≤ difference / step * (1 + 1 / 2 ^ 53)) (hi : i + 1 ≤ quotient)
    (h0 : 0 ≤ i) (hle : i ≤ 2 ^ 51) : i * step * (1 + 1 / 2 ^ 53) ≤ interval := by
  have hcount : (i + 1) * step ≤ interval * (1 + 1 / 2 ^ 53) ^ 2 :=
    calc (i + 1) * step ≤ difference / step * (1 + 1 / 2 ^ 53) * step :=
          mul_le_mul_of_nonneg_right (hi.trans hquotient) hstep.le
      _ = difference * (1 + 1 / 2 ^ 53) := by field_simp
      _ ≤ interval * (1 + 1 / 2 ^ 53) * (1 + 1 / 2 ^ 53) :=
          mul_le_mul_of_nonneg_right hdifference (by norm_num)
      _ = interval * (1 + 1 / 2 ^ 53) ^ 2 := by ring
  have hrounding : i * (1 + 1 / 2 ^ 53) ^ 3 ≤ i + 1 := by
    have hcube : ((1 : ℚ) + 1 / 2 ^ 53) ^ 3 ≤ 1 + 1 / 2 ^ 51 := by norm_num
    calc i * (1 + 1 / 2 ^ 53) ^ 3 ≤ i * (1 + 1 / 2 ^ 51) := mul_le_mul_of_nonneg_left hcube h0
      _ = i + i / 2 ^ 51 := by ring
      _ ≤ i + 1 := add_le_add_right ((div_le_one (by norm_num)).mpr hle) i
  refine le_of_mul_le_mul_right ?_ (by norm_num : (0 : ℚ) < (1 + 1 / 2 ^ 53) ^ 2)
  calc i * step * (1 + 1 / 2 ^ 53) * (1 + 1 / 2 ^ 53) ^ 2 = i * (1 + 1 / 2 ^ 53) ^ 3 * step := by
        ring
    _ ≤ (i + 1) * step := mul_le_mul_of_nonneg_right hrounding hstep.le
    _ ≤ interval * (1 + 1 / 2 ^ 53) ^ 2 := hcount

namespace Proper

variable {d : Domain} (hd : d.Proper)

include hd

theorem difference_le (hfinite : (d.high - d.low).isFinite = true) :
    toRat (d.high - d.low) ≤ (toRat d.high - toRat d.low) * (1 + 1 / 2 ^ 53) := by
  have hdifference := alike_sub hd.high hd.low
  obtain ⟨a, ha⟩ := exists_toRat_eq (minExponent_le d.high)
  obtain ⟨b, hb⟩ := exists_toRat_eq (minExponent_le d.low)
  rw [toRat_of_alike hdifference]
  refine toRat_rounded_le (sub_nonneg.mpr hd.ordered)
    (abs_lt.mp ((isFinite_iff_of_alike hdifference).mp hfinite)).2 (.inr ⟨a - b, ?_⟩)
  rw [ha, hb, Int.cast_sub, sub_mul]

theorem quotient_le (hfinite : ((d.high - d.low) / d.step).isFinite = true)
    (hone : 1 ≤ toRat ((d.high - d.low) / d.step)) : toRat ((d.high - d.low) / d.step) ≤
      toRat (d.high - d.low) / toRat d.step * (1 + 1 / 2 ^ 53) := by
  rcases hd.quotient_cases with ⟨-, hinf⟩ | ⟨-, hquotient⟩
  · rw [hinf] at hfinite
    exact absurd hfinite (by decide)
  have hbound := (isFinite_iff_of_alike hquotient).mp hfinite
  have hnonneg := div_nonneg hd.difference_nonneg hd.upward.le
  rw [toRat_of_alike hquotient] at hone ⊢
  -- what is rounded up to one is at least a half
  have hhalf : 1 / 2 ≤ toRat (d.high - d.low) / toRat d.step := by
    have hnear := (isNearest_rounded (isFinite_rounded_iff.mpr hbound)).nearest 0 rfl
    rw [toRat_zero, zero_sub, abs_neg, abs_of_nonneg hnonneg] at hnear
    linarith [(abs_le.mp hnear).2]
  refine toRat_rounded_le hnonneg (abs_lt.mp hbound).2 (.inl (le_trans ?_ hhalf))
  exact (zpow_le_zpow_right₀ one_le_two (by decide : (-1022 : Int) ≤ -1)).trans_eq (by norm_num)

theorem offset_le {i : Nat} (hi : i < 2 ^ 53) (hlt : i * toRat d.step < overflowBound) :
    toRat (Float.ofNat i * d.step) ≤ i * toRat d.step * (1 + 1 / 2 ^ 53) := by
  obtain ⟨a, ha⟩ := exists_toRat_eq (minExponent_le d.step)
  rw [toRat_of_alike (hd.alike_offset (hi.trans (by decide))), toRat_ofNat hi]
  refine toRat_rounded_le (mul_nonneg (Nat.cast_nonneg i) hd.upward.le) hlt (.inr ⟨i * a, ?_⟩)
  rw [ha, Int.cast_mul, Int.cast_natCast, mul_assoc]

/-- **Only the last sample can lie beyond the upper bound.** -/
theorem sample_le_high {n : Int} (hn : d.count = .ok n) (hle : n ≤ 2 ^ 51) {i : Nat}
    (hi : (i : Int) + 1 < n) : d.sample i ≤ d.high := by
  obtain ⟨hfinite, hcount⟩ := count_eq_ok_iff.mp hn
  have hquotient : (i : ℚ) + 1 ≤ toRat ((d.high - d.low) / d.step) := by
    have hfloor : (i : Int) + 1 ≤ ⌊toRat ((d.high - d.low) / d.step)⌋ := by omega
    exact_mod_cast Int.le_floor.mp hfloor
  have hsmall : i < 2 ^ 51 := by
    have hlt : (i : Int) < 2 ^ 51 := by omega
    exact_mod_cast hlt
  have hdifference : (d.high - d.low).isFinite = true := by
    rcases hd.quotient_cases with ⟨-, hinf⟩ | ⟨h, -⟩
    · rw [hinf] at hfinite
      exact absurd hfinite (by decide)
    · exact h
  have hinside : (i : ℚ) * toRat d.step * (1 + 1 / 2 ^ 53) ≤ toRat d.high - toRat d.low := by
    refine mul_le_of_rounded hd.upward (hd.difference_le hdifference)
      (hd.quotient_le hfinite ?_) hquotient (Nat.cast_nonneg i) (by exact_mod_cast hsmall.le)
    linarith [(Nat.cast_nonneg i : (0 : ℚ) ≤ i)]
  have hlt : i * toRat d.step < overflowBound := by
    have hbound := (isFinite_iff_of_alike (alike_sub hd.high hd.low)).mp hdifference
    have hproduct := mul_nonneg (Nat.cast_nonneg i) hd.upward.le
    linarith [(abs_lt.mp hbound).2]
  have hplace : i < 2 ^ 53 := hsmall.trans (by decide)
  have hoffset := hd.alike_offset (hplace.trans (by decide))
  have hoffsetFinite : (Float.ofNat i * d.step).isFinite = true := by
    rw [isFinite_iff_of_alike hoffset, toRat_ofNat hplace,
      abs_of_nonneg (mul_nonneg (Nat.cast_nonneg i) hd.upward.le)]
    exact hlt
  rw [le_iff_toRat (hd.isNaN_sample (hplace.trans (by decide))) (isNaN_of_isFinite hd.high)]
  refine toRat_le_of_alike (alike_add hd.low hoffsetFinite) hd.high ?_
  linarith [hd.offset_le hplace hlt]

end Proper

/-! ### Sampling inside the bounds -/

/-- There are samples, as many as are counted, and they lie between the bounds. -/
def SampledInside (d : Domain) : Prop :=
  ∃ n xs, d.count = .ok n ∧ 1 ≤ n ∧ d.samples = .ok xs ∧ (xs.length : Int) = n ∧
    ∀ x ∈ xs, d.low ≤ x ∧ x ≤ d.high

section Samples

variable {d : Domain} (hd : d.Proper) {n : Int} (hn : d.count = .ok n)

include hd hn

theorem one_le_count : 1 ≤ n := by
  have hfloor := Int.floor_nonneg.mpr hd.quotient_nonneg
  have hcount := (count_eq_ok_iff.mp hn).2
  omega

variable {xs : List Float} (hx : d.samples = .ok xs)

include hx

omit hd in
/-- What the samples are. -/
theorem samples_eq : 8 * n ≤ maxLength ∧ xs = (List.range n.toNat).map d.sample := by
  obtain ⟨m, hm, hle, rfl⟩ := samples_eq_ok_iff.mp hx
  obtain rfl : n = m := Except.ok.inj (hn.symm.trans hm)
  exact ⟨hle, rfl⟩

omit hd in
/-- Places of samples fit into a double. -/
theorem lt_of_mem_range {i : Nat} (hi : i < n.toNat) : i < 2 ^ 63 := by
  have hle := (samples_eq hn hx).1
  rw [maxLength] at hle
  omega

theorem pairwise_samples : xs.Pairwise (· ≤ ·) := by
  rw [(samples_eq hn hx).2, List.pairwise_map]
  refine List.pairwise_lt_range.imp_of_mem fun {i j} _ hj hij => ?_
  exact hd.sample_mono (Nat.le_of_lt hij) (lt_of_mem_range hn hx (List.mem_range.mp hj))

theorem low_le_of_mem_samples {x : Float} (h : x ∈ xs) : d.low ≤ x := by
  rw [(samples_eq hn hx).2] at h
  obtain ⟨i, hi, rfl⟩ := List.mem_map.mp h
  exact hd.low_le_sample (lt_of_mem_range hn hx (List.mem_range.mp hi))

/-- No sample is larger than the last one. -/
theorem le_high_of_mem_samples (hlast : d.sample (n - 1).toNat ≤ d.high) {x : Float}
    (h : x ∈ xs) : x ≤ d.high := by
  rw [(samples_eq hn hx).2] at h
  obtain ⟨i, hi, rfl⟩ := List.mem_map.mp h
  have hone := one_le_count hd hn
  have hlt := List.mem_range.mp hi
  have hplace : (n - 1).toNat < 2 ^ 63 := lt_of_mem_range hn hx (by omega)
  have hhigh := isNaN_of_isFinite hd.high
  rw [le_iff_toRat (hd.isNaN_sample hplace) hhigh] at hlast
  rw [le_iff_toRat (hd.isNaN_sample (lt_of_mem_range hn hx hlt)) hhigh]
  exact (hd.toRat_sample_mono (by omega) hplace).trans hlast

theorem last_mem_samples : d.sample (n - 1).toNat ∈ xs := by
  have hone := one_le_count hd hn
  rw [(samples_eq hn hx).2]
  exact List.mem_map_of_mem (List.mem_range.mpr (by omega))

theorem le_high_of_mem_dropLast (hle : n ≤ 2 ^ 51) {x : Float} (h : x ∈ xs.dropLast) :
    x ≤ d.high := by
  have hone := one_le_count hd hn
  obtain ⟨k, hk⟩ : ∃ k : Nat, n.toNat = k + 1 := ⟨n.toNat - 1, by omega⟩
  rw [(samples_eq hn hx).2, hk, List.range_succ, List.map_append, List.map_singleton,
    List.dropLast_concat] at h
  obtain ⟨i, hi, rfl⟩ := List.mem_map.mp h
  have hlt := List.mem_range.mp hi
  exact hd.sample_le_high hn hle (by omega)

end Samples

/-- **When a domain is sampled inside itself.**  Its samples can be counted unless the quotient
overflows, and kept if there is room for them.  There is at least one, there are as many as were
counted, and they go up from the lower bound on; so they lie inside if the last one does, and unless
there are more than `2 ^ 51` of them, it is the only one that may not. -/
theorem sampledInside_iff {minimum maximum step : Float} {d : Domain}
    (h : make minimum maximum step = .ok d) :
    ((∃ n, d.count = .ok n) ↔ ((d.high - d.low) / d.step).isFinite = true) ∧
      (d.SampledInside ↔
        ∃ n, d.count = .ok n ∧ 8 * n ≤ maxLength ∧ d.sample (n - 1).toNat ≤ d.high) ∧
      ∀ n, d.count = .ok n → 1 ≤ n ∧ ((∃ xs, d.samples = .ok xs) ↔ 8 * n ≤ maxLength) ∧
        ∀ xs, d.samples = .ok xs → (xs.length : Int) = n ∧
          (∀ i x, xs[i]? = some x → x = d.low + Float.ofNat i * d.step) ∧
          xs.Pairwise (· ≤ ·) ∧ (∀ x ∈ xs, d.low ≤ x) ∧
          (n ≤ 2 ^ 51 → ∀ x ∈ xs.dropLast, x ≤ d.high) := by
  have hd := proper_of_make h
  have hlength {n : Int} {xs : List Float} (hn : d.count = .ok n) (hx : d.samples = .ok xs) :
      (xs.length : Int) = n := by
    have hone := one_le_count hd hn
    have hlen := length_samples hn hx
    omega
  refine ⟨?_, ?_, fun n hn => ⟨one_le_count hd hn, ?_, fun xs hx => ⟨hlength hn hx, ?_,
    pairwise_samples hd hn hx, fun x => low_le_of_mem_samples hd hn hx,
    fun hle x => le_high_of_mem_dropLast hd hn hx hle⟩⟩⟩
  · simp only [count_eq_ok_iff]
    exact ⟨fun ⟨_, hfinite, _⟩ => hfinite, fun hfinite => ⟨_, hfinite, rfl⟩⟩
  · constructor
    · rintro ⟨n, xs, hn, -, hx, -, hinside⟩
      exact ⟨n, hn, (samples_eq hn hx).1, (hinside _ (last_mem_samples hd hn hx)).2⟩
    · rintro ⟨n, hn, hle, hlast⟩
      have hx := samples_eq_ok_iff.mpr ⟨n, hn, hle, rfl⟩
      exact ⟨n, _, hn, one_le_count hd hn, hx, hlength hn hx, fun x hmem =>
        ⟨low_le_of_mem_samples hd hn hx hmem, le_high_of_mem_samples hd hn hx hlast hmem⟩⟩
  · exact ⟨fun ⟨xs, hx⟩ => (samples_eq hn hx).1,
      fun hle => ⟨_, samples_eq_ok_iff.mpr ⟨n, hn, hle, rfl⟩⟩⟩
  · intro i x hix
    rw [(samples_eq hn hx).2, List.getElem?_map, Option.map_eq_some_iff] at hix
    obtain ⟨k, hk, rfl⟩ := hix
    obtain ⟨hlt, rfl⟩ := List.getElem?_eq_some_iff.mp hk
    rw [List.getElem_range]
    rfl

/-- Twenty steps of a tenth, which is rounded, end at the upper bound. -/
theorem sampledInside_tenths : make (-1) 1 0.1 = .ok ⟨-1, 1, 0.1⟩ ∧ SampledInside ⟨-1, 1, 0.1⟩ := by
  have h : make (-1) 1 0.1 = .ok ⟨-1, 1, 0.1⟩ := by decide +kernel
  exact ⟨h, (sampledInside_iff h).2.1.mpr ⟨21, by decide +kernel, by decide, by decide +kernel⟩⟩

/-- **The last sample can lie beyond the upper bound**, and the difference of the bounds can
overflow. -/
theorem not_sampledInside : (∃ d, make (-0.1) 0.3 0.2 = .ok d ∧ d.count = .ok 3 ∧
      d.samples = .ok [-0.1, 0.1, 0.30000000000000004] ∧ ¬d.SampledInside) ∧
    ∃ d, make (-1e308) 1e308 1 = .ok d ∧ d.count = .error .countInfinite ∧ ¬d.SampledInside := by
  refine ⟨⟨⟨-0.1, 0.3, 0.2⟩, by decide +kernel, by decide +kernel, by decide +kernel, ?_⟩,
    ⟨⟨-1e308, 1e308, 1⟩, by decide +kernel, by decide +kernel, ?_⟩⟩
  · rintro ⟨n, xs, -, -, hx, -, hinside⟩
    have hsamples : samples ⟨-0.1, 0.3, 0.2⟩ = .ok [-0.1, 0.1, 0.30000000000000004] := by
      decide +kernel
    obtain rfl := Except.ok.inj (hsamples.symm.trans hx)
    exact absurd (hinside 0.30000000000000004 (by simp)).2 (by decide +kernel)
  · rintro ⟨n, xs, hn, -⟩
    have hcount : count ⟨-1e308, 1e308, 1⟩ = .error .countInfinite := by decide +kernel
    exact absurd (hcount.symm.trans hn) nofun

end Domain

end Argand
