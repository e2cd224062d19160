import Argand.Proofs.NearestDoubles

/-!
# The order of doubles

Doubles are compared by their sign, their exponent and their significand.  This is the order of the
rational numbers they stand for, where an infinity counts as the number that would come after the
largest double.

## Main results

* `toRat_of_zero`, `toRat_of_finite`, `toRat_infinity` — what a form stands for.
* `compare_eq` — **doubles are compared as rational numbers.**
* `lt_iff_toRat`, `le_iff_toRat`, `alike_iff_toRat` — what this says about `<`, `≤` and equality.
-/

namespace Argand.Binary64

open Float.Model (UnpackedFloat totalExponent)
open Float.Model.UnpackedFloat (Sign)

/-! ### Forms as rational numbers -/

theorem toRat_of_zero {x : Float} {s : Sign} (h : form x = .zero s) : toRat x = 0 := by
  have hfinite : x.isFinite = true := by rw [isFinite_eq, h]; rfl
  have hzero : (decode x).significand = 0 := by rw [decode_eq hfinite, h]; rfl
  rw [← abs_eq_zero, abs_toRat, hzero, Nat.cast_zero, zero_mul]

theorem toRat_zero : toRat 0 = 0 := toRat_of_zero (s := .positive) rfl

theorem toRat_of_finite {x : Float} {s : Sign} {m : Nat} {e : Int} {hm : 0 < m}
    (h : form x = .finite s m e hm) : toRat x = s.apply m * (2 : ℚ) ^ e := by
  have hfinite : x.isFinite = true := by rw [isFinite_eq, h]; rfl
  rw [toRat, Parts.toRat_magnitude, decode_eq hfinite, h]
  cases s <;> simp [partsOf, Sign.apply]

/-- An infinity counts as the number that would come after the largest double. -/
theorem toRat_infinity : toRat infinity = 2 ^ (1024 : Int) := by
  have hdecode : decode infinity = ⟨false, fieldUnit, 972⟩ := by decide +kernel
  have hunit : ((fieldUnit : Nat) : ℚ) = 2 ^ (52 : Int) := by exact_mod_cast rfl
  rw [toRat, Parts.toRat_magnitude, hdecode, if_neg Bool.false_ne_true, hunit,
    ← zpow_add₀ two_ne_zero]
  rfl

theorem toRat_neg_infinity : toRat (-infinity) = -2 ^ (1024 : Int) := by
  have hdecode : decode (-infinity) = { decode infinity with negative := true } := by
    decide +kernel
  have hpositive : toRat infinity = (decode infinity).magnitude.toRat := by
    rw [toRat, if_neg (by decide +kernel)]
  rw [toRat, hdecode, if_pos rfl, ← toRat_infinity, hpositive]
  rfl

/-- What is a number is finite or one of the two infinities. -/
theorem isFinite_or_infinity {x : Float} (hx : x.isNaN = false) :
    x.isFinite = true ∨ x = infinity ∨ x = -infinity := by
  cases hform : form x with
  | notANumber =>
    rw [isNaN_iff.mpr hform] at hx
    cases hx
  | infinity s =>
    right
    have hxs : x = ofForm (.infinity s) := by rw [← hform, ofForm_form]
    cases s with
    | positive => exact .inl hxs
    | negative => exact .inr hxs
  | zero s =>
    left
    rw [isFinite_eq, hform]
    rfl
  | finite s m e hm =>
    left
    rw [isFinite_eq, hform]
    rfl

/-- A finite form has 53 bits, or as many as there are above the smallest exponent. -/
theorem canonical_bounds {x : Float} {s : Sign} {m : Nat} {e : Int} {hm : 0 < m}
    (h : form x = .finite s m e hm) :
    m < 2 ^ 53 ∧ minExponent ≤ e ∧ (2 ^ 52 ≤ m ∨ e = minExponent) := by
  have hx := canonical_form x
  rw [h, Canonical, targetExponent_eq, totalExponent] at hx
  have hlo := Nat.log2_self_le (Nat.ne_of_gt hm)
  have hhi : m < 2 ^ (m.log2 + 1) := Nat.lt_log2_self
  rw [minExponent]
  refine ⟨?_, by omega, ?_⟩
  · exact hhi.trans_le (Nat.pow_le_pow_right Nat.two_pos (by omega))
  · by_cases hlog : m.log2 = 52
    · left
      rwa [hlog] at hlo
    · right
      omega

/-! ### Comparison -/

/-- Of two significands the one with the smaller exponent is smaller. -/
theorem mul_zpow_lt_of_exponent_lt {m n : Nat} {e d : Int} (hm : m < 2 ^ 53) (hn : 2 ^ 52 ≤ n)
    (h : e < d) : (m : ℚ) * 2 ^ e < n * 2 ^ d := by
  have hm' : (m : ℚ) < 2 ^ 53 := by exact_mod_cast hm
  have hn' : (2 : ℚ) ^ 52 ≤ n := by exact_mod_cast hn
  calc (m : ℚ) * 2 ^ e < 2 ^ 53 * 2 ^ e := mul_lt_mul_of_pos_right hm' (zpow_pos two_pos _)
    _ ≤ 2 ^ 53 * 2 ^ (d - 1) :=
        mul_le_mul_of_nonneg_left (zpow_le_zpow_right₀ one_le_two (by omega)) (by positivity)
    _ = 2 ^ 52 * 2 ^ d := by
        rw [zpow_sub₀ two_ne_zero]
        ring
    _ ≤ n * 2 ^ d := mul_le_mul_of_nonneg_right hn' (zpow_nonneg two_pos.le _)

/-- Significands are compared by their exponents first. -/
theorem compare_magnitudes {x y : Float} {s t : Sign} {m n : Nat} {e d : Int} {hm : 0 < m}
    {hn : 0 < n} (hx : form x = .finite s m e hm) (hy : form y = .finite t n d hn) :
    (compare e d).then (compare m n) = cmp ((m : ℚ) * 2 ^ e) (n * 2 ^ d) := by
  obtain ⟨hm53, hemin, hm52⟩ := canonical_bounds hx
  obtain ⟨hn53, hdmin, hn52⟩ := canonical_bounds hy
  rcases lt_trichotomy e d with hlt | rfl | hgt
  · have hless := mul_zpow_lt_of_exponent_lt hm53 (hn52.resolve_right (by omega)) hlt
    rw [Int.compare_eq_lt.mpr hlt, (cmp_eq_lt_iff _ _).mpr hless]
    rfl
  · rw [Int.compare_eq_eq.mpr rfl, cmp_mul_pos_right (zpow_pos two_pos e)]
    change compare m n = _
    rcases lt_trichotomy m n with hlt | rfl | hgt
    · rw [Nat.compare_eq_lt.mpr hlt, (cmp_eq_lt_iff _ _).mpr (Nat.cast_lt.mpr hlt)]
    · rw [Nat.compare_eq_eq.mpr rfl, cmp_self_eq_eq]
    · rw [Nat.compare_eq_gt.mpr hgt, (cmp_eq_gt_iff _ _).mpr (Nat.cast_lt.mpr hgt)]
  · have hless := mul_zpow_lt_of_exponent_lt hn53 (hm52.resolve_right (by omega)) hgt
    rw [Int.compare_eq_gt.mpr hgt, (cmp_eq_gt_iff _ _).mpr hless]
    rfl

theorem cmp_neg_neg (a b : ℚ) : cmp (-a) (-b) = cmp b a := by
  rcases lt_trichotomy a b with hlt | rfl | hgt
  · rw [(cmp_eq_gt_iff _ _).mpr hlt, (cmp_eq_gt_iff _ _).mpr (neg_lt_neg hlt)]
  · rw [cmp_self_eq_eq, cmp_self_eq_eq]
  · rw [(cmp_eq_lt_iff _ _).mpr hgt, (cmp_eq_lt_iff _ _).mpr (neg_lt_neg hgt)]

/-- Finite doubles are compared as rational numbers. -/
theorem compare_eq_of_isFinite {x y : Float} (hx : x.isFinite = true) (hy : y.isFinite = true) :
    (form x).compare (form y) = some (cmp (toRat x) (toRat y)) := by
  have hpos (m : Nat) (e : Int) (hm : 0 < m) : (0 : ℚ) < m * 2 ^ e :=
    mul_pos (Nat.cast_pos.mpr hm) (zpow_pos two_pos e)
  rcases form_cases hx with ⟨s, hs⟩ | ⟨s, m, e, hm, hs⟩ <;>
    rcases form_cases hy with ⟨t, ht⟩ | ⟨t, n, d, hn, ht⟩
  · rw [toRat_of_zero hs, toRat_of_zero ht, cmp_self_eq_eq, hs, ht]
    rfl
  · have h := hpos n d hn
    rw [toRat_of_zero hs, toRat_of_finite ht, hs, ht]
    cases t with
    | positive =>
      rw [(cmp_eq_lt_iff _ _).mpr (by simpa [Sign.apply] using h)]
      rfl
    | negative =>
      rw [(cmp_eq_gt_iff _ _).mpr (by simpa [Sign.apply] using h)]
      rfl
  · have h := hpos m e hm
    rw [toRat_of_finite hs, toRat_of_zero ht, hs, ht]
    cases s with
    | positive =>
      rw [(cmp_eq_gt_iff _ _).mpr (by simpa [Sign.apply] using h)]
      rfl
    | negative =>
      rw [(cmp_eq_lt_iff _ _).mpr (by simpa [Sign.apply] using h)]
      rfl
  · have hx' := hpos m e hm
    have hy' := hpos n d hn
    have hmagnitude := compare_magnitudes hs ht
    rw [toRat_of_finite hs, toRat_of_finite ht, hs, ht]
    cases s <;> cases t <;> simp only [Sign.apply, Int.cast_neg, Int.cast_natCast, neg_mul]
    · rw [cmp_neg_neg, ← cmp_swap, ← hmagnitude]
      rfl
    · rw [(cmp_eq_lt_iff _ _).mpr (by linarith)]
      rfl
    · rw [(cmp_eq_gt_iff _ _).mpr (by linarith)]
      rfl
    · exact congrArg some hmagnitude

theorem isNaN_of_isFinite {x : Float} (hx : x.isFinite = true) : x.isNaN = false := by
  rw [Bool.eq_false_iff, ne_eq, isNaN_iff]
  intro hnan
  rw [isFinite_eq, hnan] at hx
  cases hx

theorem abs_toRat_lt {x : Float} (hx : x.isFinite = true) : |toRat x| < 2 ^ (1024 : Int) :=
  (abs_toRat_le hx).trans_lt maxFinite_lt

/-- Finite doubles stand between the infinities. -/
theorem compare_infinity {x : Float} (hx : x.isFinite = true) :
    (form x).compare (form infinity) = some .lt ∧ (form x).compare (form (-infinity)) = some .gt ∧
      (form infinity).compare (form x) = some .gt ∧
      (form (-infinity)).compare (form x) = some .lt := by
  rcases form_cases hx with ⟨s, hs⟩ | ⟨s, m, e, hm, hs⟩ <;> rw [hs] <;> cases s <;>
    exact ⟨rfl, rfl, rfl, rfl⟩

/-- No number is beyond the infinities. -/
theorem toRat_between {x : Float} (hx : x.isNaN = false) :
    toRat (-infinity) ≤ toRat x ∧ toRat x ≤ toRat infinity := by
  rw [toRat_infinity, toRat_neg_infinity]
  have hinf : -(2 : ℚ) ^ (1024 : Int) ≤ 2 ^ (1024 : Int) :=
    neg_le_self (zpow_nonneg two_pos.le _)
  rcases isFinite_or_infinity hx with hx | rfl | rfl
  · exact (abs_le.mp (abs_toRat_lt hx).le)
  · rw [toRat_infinity]
    exact ⟨hinf, le_rfl⟩
  · rw [toRat_neg_infinity]
    exact ⟨le_rfl, hinf⟩

section Compare

variable {x y : Float} (hx : x.isNaN = false) (hy : y.isNaN = false)

include hx hy

/-- **Doubles are compared as rational numbers**, where an infinity counts as the number that would
come after the largest double. -/
theorem compare_eq : (form x).compare (form y) = some (cmp (toRat x) (toRat y)) := by
  have hinf : -(2 : ℚ) ^ (1024 : Int) < 2 ^ (1024 : Int) :=
    neg_lt_self (zpow_pos two_pos _)
  rcases isFinite_or_infinity hx with hx | rfl | rfl <;>
    rcases isFinite_or_infinity hy with hy | rfl | rfl
  · exact compare_eq_of_isFinite hx hy
  · rw [(compare_infinity hx).1, toRat_infinity,
      (cmp_eq_lt_iff _ _).mpr (abs_lt.mp (abs_toRat_lt hx)).2]
  · rw [(compare_infinity hx).2.1, toRat_neg_infinity,
      (cmp_eq_gt_iff _ _).mpr (abs_lt.mp (abs_toRat_lt hx)).1]
  · rw [(compare_infinity hy).2.2.1, toRat_infinity,
      (cmp_eq_gt_iff _ _).mpr (abs_lt.mp (abs_toRat_lt hy)).2]
  · rw [cmp_self_eq_eq]
    rfl
  · rw [toRat_infinity, toRat_neg_infinity, (cmp_eq_gt_iff _ _).mpr hinf]
    rfl
  · rw [(compare_infinity hy).2.2.2, toRat_neg_infinity,
      (cmp_eq_lt_iff _ _).mpr (abs_lt.mp (abs_toRat_lt hy)).1]
  · rw [toRat_infinity, toRat_neg_infinity, (cmp_eq_lt_iff _ _).mpr hinf]
    rfl
  · rw [cmp_self_eq_eq]
    rfl

theorem lt_iff_toRat : x < y ↔ toRat x < toRat y := by
  have hlt : x < y ↔ (form x).lt (form y) = true := decide_eq_true_iff
  rw [hlt, UnpackedFloat.lt, compare_eq hx hy, ← cmp_eq_lt_iff (toRat x)]
  cases cmp (toRat x) (toRat y) <;> decide

theorem le_iff_toRat : x ≤ y ↔ toRat x ≤ toRat y := by
  have hle : x ≤ y ↔ (form x).le (form y) = true := decide_eq_true_iff
  rw [hle, UnpackedFloat.le, compare_eq hx hy, ← not_lt, ← cmp_eq_gt_iff (toRat x)]
  cases cmp (toRat x) (toRat y) <;> decide

/-- Doubles with the same value are the same up to the sign of a zero. -/
theorem alike_iff_toRat : Alike x y ↔ toRat x = toRat y := by
  have hbeq : (x == y) = true ↔ toRat x = toRat y := by
    have heq : (x == y) = (form x).beq (form y) := rfl
    rw [heq, UnpackedFloat.beq, compare_eq hx hy, ← cmp_eq_eq_iff (toRat x)]
    cases cmp (toRat x) (toRat y) <;> decide
  constructor
  · intro h
    exact hbeq.mp (h.beq_or_isNaN.resolve_right fun hnan =>
      absurd (hx.symm.trans hnan.1) Bool.false_ne_true)
  · exact fun h => .of_beq (hbeq.mpr h)

end Compare

theorem beq_zero_iff_toRat {x : Float} (hx : x.isFinite = true) :
    (x == 0) = true ↔ toRat x = 0 := by
  rw [← toRat_zero, ← alike_iff_toRat (isNaN_of_isFinite hx) rfl]
  exact ⟨Alike.of_beq, fun h => h.beq_zero_eq.trans rfl⟩

end Argand.Binary64
