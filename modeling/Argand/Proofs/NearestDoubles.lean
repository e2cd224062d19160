import Argand.Decimal.Numeral
import Argand.Proofs.Alike
import Argand.Proofs.Ratios

/-!
# Doubles as rational numbers

A finite double is a rational number, and every rational number that is not too large has a
double that is nearest to it.  This is what reading a decimal has to find.

## Main definitions

* `toRat x` — a finite double as a rational number.
* `maxFinite` — the largest double.
* `IsNearest y q` — no double is nearer to `q` than `y`, and if another is as near then the
  significand of `y` is even.

## Main results

* `decode_eq` — the parts of a double are those of its form.
* `decode_neg`, `decode_abs`, `toRat_neg` — what a sign changes.
* `isNearest_nearest` — **a ratio is read as a nearest double.**
* `isNearest_nearestDecimal` — **and so is a decimal**, however many digits it has.
-/

namespace Argand.Binary64

open Float.Model (Format UnpackedFloat)
open Float.Model.UnpackedFloat (Sign unpackSign unpackExponent unpackMantissa)

/-! ### Parts and forms -/

/-- The parts of a form; what is not finite has none and counts as zero. -/
def partsOf : UnpackedFloat → Parts
  | .finite s m e _ => ⟨s == .negative, m, e⟩
  | .zero s => ⟨s == .negative, 0, minExponent⟩
  | _ => ⟨false, 0, minExponent⟩

/-- What the exponent field tells: a full one belongs to what is not finite, an empty one to a
number without a leading bit. -/
theorem unpack_cases (b : BitVec Format.binary64.numBits) :
    (unpackExponent b).toNat = 2047 ∧ (UnpackedFloat.unpack Format.binary64 b).isFinite = false ∨
      (unpackExponent b).toNat ≠ 2047 ∧
        (UnpackedFloat.unpack Format.binary64 b).isFinite = true ∧
        ∃ negative, partsOf (UnpackedFloat.unpack Format.binary64 b) =
          if (unpackExponent b).toNat = 0 then ⟨negative, (unpackMantissa b).toNat, minExponent⟩
          else ⟨negative, (unpackMantissa b).toNat + fieldUnit,
            ((unpackExponent b).toNat : Int) + (minExponent - 1)⟩ := by
  have hbias : (Format.binary64.exponentBias : Int) = 1023 := rfl
  unfold UnpackedFloat.unpack
  dsimp only
  split
  · next hinf =>
    left
    refine ⟨by rw [hinf]; rfl, ?_⟩
    split <;> rfl
  · next hfinite =>
    have hne : (unpackExponent b).toNat ≠ 2047 := fun h => hfinite (BitVec.eq_of_toNat_eq h)
    refine .inr ⟨hne, ?_⟩
    split
    · next hsub =>
      have hzero : (unpackExponent b).toNat = 0 := by rw [hsub]; rfl
      split
      · next hnone => exact ⟨rfl, _, by rw [hnone]; rfl⟩
      · exact ⟨rfl, _, by rw [hzero]; rfl⟩
    · next hnormal =>
      have hpos : (unpackExponent b).toNat ≠ 0 := fun h => hnormal (BitVec.eq_of_toNat_eq h)
      refine ⟨rfl, Sign.ofBitVec (unpackSign b) == .negative, ?_⟩
      rw [if_neg hpos, partsOf, toNat_one_append, hbias]
      have hexponent : ((unpackExponent b).toNat : Int) - (1023 + (52 : Nat)) =
          (unpackExponent b).toNat + (minExponent - 1) := by
        rw [minExponent]
        omega
      rw [hexponent]

/-- What is finite is zero or has a significand. -/
theorem form_cases {x : Float} (hx : x.isFinite = true) :
    (∃ s, form x = .zero s) ∨ ∃ s m e hm, form x = .finite s m e hm := by
  rw [isFinite_eq] at hx
  cases hform : form x with
  | notANumber => rw [hform] at hx; cases hx
  | infinity s => rw [hform] at hx; cases hx
  | zero s => exact .inl ⟨s, rfl⟩
  | finite s m e hm => exact .inr ⟨s, m, e, hm, rfl⟩

/-- A double is finite if its exponent field is not full. -/
theorem isFinite_iff {x : Float} :
    x.isFinite = true ↔ x.toBits.toNat / fieldUnit % fieldSize ≠ 2047 := by
  obtain ⟨bits, hbits⟩ := x
  have hexponent := toNat_unpackExponent bits.toBitVec
  change UnpackedFloat.isFinite (UnpackedFloat.unpack Format.binary64 bits.toBitVec) = true ↔
    bits.toBitVec.toNat / fieldUnit % fieldSize ≠ 2047
  rw [← hexponent]
  rcases unpack_cases bits.toBitVec with ⟨hfull, hnot⟩ | ⟨hne, hfinite, -⟩
  · rw [hnot, hfull]
    decide
  · exact iff_of_true hfinite hne

/-- The sign bit of a finite double is the sign of its form. -/
theorem negative_decode {x : Float} (hx : x.isFinite = true) :
    (decode x).negative = (signOf (form x) == .negative) := by
  have hform : form x ≠ .notANumber := by
    intro h
    rw [isFinite_eq, h] at hx
    cases hx
  rw [← isNegative_eq hform, decode]
  split <;> rfl

/-- **The parts of a finite double are those of its form.** -/
theorem decode_eq {x : Float} (hx : x.isFinite = true) : decode x = partsOf (form x) := by
  have hnegative : (partsOf (form x)).negative = (decode x).negative := by
    rw [negative_decode hx]
    rcases form_cases hx with ⟨s, hs⟩ | ⟨s, m, e, hm, hs⟩ <;> rw [hs] <;> rfl
  obtain ⟨bits, hbits⟩ := x
  have hexponent := toNat_unpackExponent bits.toBitVec
  have hmantissa := toNat_unpackMantissa bits.toBitVec
  rcases unpack_cases bits.toBitVec with ⟨-, hnot⟩ | ⟨-, -, negative, hparts⟩
  · exact absurd (hnot.symm.trans hx) Bool.false_ne_true
  · change partsOf (form ⟨⟨bits, hbits⟩⟩) = _ at hparts
    rw [hparts, hexponent, hmantissa] at hnegative ⊢
    change (if bits.toBitVec.toNat / fieldUnit % fieldSize = 0 then
      (⟨isNegative _, bits.toBitVec.toNat % fieldUnit, minExponent⟩ : Parts)
      else ⟨isNegative _, bits.toBitVec.toNat % fieldUnit + fieldUnit,
        (bits.toBitVec.toNat / fieldUnit % fieldSize : Nat) + (minExponent - 1)⟩) = _
    have hdecode : (decode ⟨⟨bits, hbits⟩⟩).negative = isNegative ⟨⟨bits, hbits⟩⟩ := by
      rw [decode]
      split <;> rfl
    rw [hdecode] at hnegative
    rw [← hnegative]
    split <;> rfl

/-! ### Signs -/

@[simp] theorem isFinite_neg (x : Float) : (-x).isFinite = x.isFinite := by
  rw [isFinite_eq, isFinite_eq, form_neg]
  cases form x <;> rfl

/-- Negation changes the sign and nothing else. -/
theorem decode_neg {x : Float} (hx : x.isFinite = true) :
    decode (-x) = { decode x with negative := !(decode x).negative } := by
  rw [decode_eq hx, decode_eq ((isFinite_neg x).trans hx), form_neg]
  rcases form_cases hx with ⟨s, hs⟩ | ⟨s, m, e, hm, hs⟩
  · rw [hs]
    cases s <;> rfl
  · rw [hs]
    cases s <;> rfl

/-- A sign in front of a double that has none. -/
theorem decode_signed {x : Float} (hx : x.isFinite = true) (hsign : (decode x).negative = false)
    (negative : Bool) : decode (signed negative x) = { decode x with negative := negative } := by
  cases negative with
  | false => exact congrArg (fun negative => Parts.mk negative _ _) hsign
  | true =>
    rw [signed_true, decode_neg hx, hsign]
    rfl

@[simp] theorem isFinite_abs (x : Float) : x.abs.isFinite = x.isFinite := by
  rcases abs_cases x with ⟨-, hx⟩ | ⟨-, hx⟩
  · rw [hx, isFinite_neg]
  · rw [hx]

/-- The absolute value has no sign, and is the same otherwise. -/
theorem decode_abs {x : Float} (hx : x.isFinite = true) :
    decode x.abs = { decode x with negative := false } := by
  have hsign := negative_decode hx
  rcases abs_cases x with ⟨hs, habs⟩ | ⟨hs, habs⟩
  · rw [habs, decode_neg hx, hsign, hs]
    rfl
  · rw [hs] at hsign
    rw [habs]
    exact congrArg (fun negative => Parts.mk negative _ _) hsign

/-- A finite double is less than zero if it has a minus sign and is not zero. -/
theorem lt_zero_iff_decode {x : Float} (hx : x.isFinite = true) :
    x < 0 ↔ (decode x).negative = true ∧ (decode x).significand ≠ 0 := by
  rw [decode_eq hx, lt_zero_iff]
  rcases form_cases hx with ⟨s, hs⟩ | ⟨s, m, e, hm, hs⟩
  · rw [hs]
    cases s <;> simp [partsOf, UnpackedFloat.lt, UnpackedFloat.compare]
  · rw [hs]
    cases s <;> simp [partsOf, UnpackedFloat.lt, UnpackedFloat.compare, Nat.ne_of_gt hm]

/-! ### Doubles as rational numbers -/

/-- A finite double as a rational number. -/
def toRat (x : Float) : ℚ :=
  if (decode x).negative then -(decode x).magnitude.toRat else (decode x).magnitude.toRat

theorem Parts.toRat_magnitude (p : Parts) :
    p.magnitude.toRat = p.significand * (2 : ℚ) ^ p.exponent := by
  rw [Parts.magnitude, Ratio.toRat_scale 2 two_pos, Ratio.toRat]
  simp

theorem toRat_neg {x : Float} (hx : x.isFinite = true) : toRat (-x) = -toRat x := by
  rw [toRat, toRat, decode_neg hx]
  cases (decode x).negative
  · rfl
  · exact (neg_neg _).symm

theorem abs_toRat (x : Float) :
    |toRat x| = (decode x).significand * (2 : ℚ) ^ (decode x).exponent := by
  rw [← Parts.toRat_magnitude, toRat]
  split
  · rw [abs_neg, abs_of_nonneg (Ratio.toRat_nonneg _)]
  · exact abs_of_nonneg (Ratio.toRat_nonneg _)

/-- What is greater than zero has neither a sign nor an empty significand. -/
theorem of_toRat_pos {x : Float} (h : 0 < toRat x) :
    (decode x).negative = false ∧ (decode x).significand ≠ 0 := by
  constructor
  · rw [Bool.eq_false_iff]
    intro hsign
    rw [toRat, if_pos hsign] at h
    exact absurd h (not_lt.mpr (neg_nonpos.mpr (Ratio.toRat_nonneg _)))
  · intro hzero
    have habs := abs_toRat x
    rw [hzero, Nat.cast_zero, zero_mul, abs_eq_zero] at habs
    exact absurd h (by rw [habs]; exact lt_irrefl 0)

/-- A double is a multiple of every power of two that is not above its last place. -/
theorem exists_toRat_eq {x : Float} {e : Int} (he : e ≤ (decode x).exponent) :
    ∃ m : Int, toRat x = m * (2 : ℚ) ^ e := by
  have hpow : (2 : ℚ) ^ (decode x).exponent = 2 ^ ((decode x).exponent - e).toNat * 2 ^ e := by
    rw [← zpow_natCast, ← zpow_add₀ two_ne_zero]
    congr 1
    omega
  have hsize : (decode x).magnitude.toRat =
      ((decode x).significand * 2 ^ ((decode x).exponent - e).toNat : Int) * (2 : ℚ) ^ e := by
    rw [Parts.toRat_magnitude, hpow]
    push_cast
    ring
  rw [toRat, hsize]
  split
  · exact ⟨-((decode x).significand * 2 ^ ((decode x).exponent - e).toNat), by push_cast; ring⟩
  · exact ⟨_, rfl⟩

theorem significand_lt (x : Float) : (decode x).significand < 2 * fieldUnit := by
  have hlow := Nat.mod_lt x.toBits.toNat (show 0 < fieldUnit by decide)
  rw [decode]
  split
  · dsimp only
    omega
  · dsimp only
    omega

/-- The largest double. -/
def maxFinite : ℚ := (2 ^ 53 - 1) * 2 ^ 971

theorem maxFinite_lt : maxFinite < 2 ^ (1024 : Int) :=
  calc maxFinite < 2 ^ 53 * 2 ^ 971 := mul_lt_mul_of_pos_right (by norm_num) (by positivity)
    _ = 2 ^ (1024 : Int) := by rw [← pow_add, ← zpow_natCast]; rfl

theorem exponent_le {x : Float} (hx : x.isFinite = true) : (decode x).exponent ≤ 971 := by
  have hfield := isFinite_iff.mp hx
  have hlt := Nat.mod_lt (x.toBits.toNat / fieldUnit) (show 0 < fieldSize by decide)
  rw [fieldSize_eq] at hlt hfield
  rw [decode, fieldSize_eq]
  split
  · dsimp only
    decide
  · dsimp only
    rw [minExponent]
    omega

/-- No double is larger than the largest. -/
theorem abs_toRat_le {x : Float} (hx : x.isFinite = true) : |toRat x| ≤ maxFinite := by
  have hsignificand : ((decode x).significand : ℚ) ≤ 2 ^ 53 - 1 := by
    have hlt := significand_lt x
    rw [fieldUnit_eq] at hlt
    have hle : (decode x).significand + 1 ≤ 2 ^ 53 := by omega
    have hcast : ((decode x).significand : ℚ) + 1 ≤ 2 ^ 53 := by exact_mod_cast hle
    linarith
  have hpow : (2 : ℚ) ^ (decode x).exponent ≤ 2 ^ (971 : Int) :=
    zpow_le_zpow_right₀ one_le_two (exponent_le hx)
  rw [abs_toRat, maxFinite]
  exact mul_le_mul hsignificand hpow (zpow_nonneg two_pos.le _) (by norm_num)

/-! ### Doubles from their bits -/

/-- Below infinity the exponent field stands in front of the significand. -/
theorem decode_ofBits {n : Nat} (hn : n < infinityBits) :
    (Float.ofBits (UInt64.ofNat n)).isFinite = true ∧
      decode (Float.ofBits (UInt64.ofNat n)) =
        if n / fieldUnit = 0 then ⟨false, n % fieldUnit, minExponent⟩
        else ⟨false, n % fieldUnit + fieldUnit, (n / fieldUnit : Nat) + (minExponent - 1)⟩ := by
  have hbits := toNat_toBits_ofBits (Nat.le_of_lt hn)
  rw [infinityBits] at hn
  have hfield : n / fieldUnit % fieldSize = n / fieldUnit := by
    rw [fieldUnit_eq, fieldSize_eq]
    omega
  have hsign : isNegative (Float.ofBits (UInt64.ofNat n)) = false := by
    rw [isNegative, hbits, fieldUnit_eq, fieldSize_eq, beq_eq_false_iff_ne]
    omega
  constructor
  · rw [isFinite_iff, hbits, hfield, fieldUnit_eq]
    omega
  · rw [decode, hbits, hfield, hsign]

/-- A significand with its exponent makes up a double.  It takes 53 bits, or as many as there are
above the smallest exponent; it may have one bit more if all the others are zeros. -/
theorem toRat_ofBits {k s : Nat} (hs : s ≤ 2 * fieldUnit) (hk : k = 0 ∨ fieldUnit ≤ s)
    (hn : k * fieldUnit + s < infinityBits) :
    toRat (Float.ofBits (UInt64.ofNat (k * fieldUnit + s))) = s * (2 : ℚ) ^ (k + minExponent) ∧
      (decode (Float.ofBits (UInt64.ofNat (k * fieldUnit + s)))).significand % 2 = s % 2 := by
  rw [toRat, Parts.toRat_magnitude, (decode_ofBits hn).2]
  clear hn
  rw [fieldUnit_eq] at hs hk ⊢
  rcases Nat.lt_or_ge s 4503599627370496 with hlt | hge
  · -- without a leading bit
    obtain rfl : k = 0 := hk.resolve_right (Nat.not_le.mpr hlt)
    have hquot : (0 * 4503599627370496 + s) / 4503599627370496 = 0 := by omega
    have hrem : (0 * 4503599627370496 + s) % 4503599627370496 = s := by omega
    rw [hquot, hrem]
    simp
  rcases Nat.lt_or_eq_of_le hs with hlt | rfl
  · -- the leading bit counts one in the exponent field
    have hquot : (k * 4503599627370496 + s) / 4503599627370496 = k + 1 := by omega
    have hrem : (k * 4503599627370496 + s) % 4503599627370496 + 4503599627370496 = s := by omega
    have hexponent : ((k + 1 : Nat) : Int) + (minExponent - 1) = k + minExponent := by omega
    rw [hquot, hrem, if_neg (Nat.succ_ne_zero k), hexponent]
    exact ⟨rfl, rfl⟩
  · -- one bit more counts two
    have hquot : (k * 4503599627370496 + 2 * 4503599627370496) / 4503599627370496 = k + 2 := by
      omega
    have hrem : (k * 4503599627370496 + 2 * 4503599627370496) % 4503599627370496 = 0 := by omega
    have hexponent : ((k + 2 : Nat) : Int) + (minExponent - 1) = 1 + (k + minExponent) := by omega
    rw [hquot, hrem, if_neg (Nat.succ_ne_zero _), hexponent]
    constructor
    · rw [if_neg Bool.false_ne_true, zpow_add₀ two_ne_zero]
      push_cast
      ring
    · norm_num

/-! ### The nearest double -/

/-- No double is nearer to a number than `y`, and if another is as near then the significand of
`y` is even. -/
structure IsNearest (y : Float) (q : ℚ) : Prop where
  finite : y.isFinite = true
  nearest : ∀ v : Float, v.isFinite = true → |toRat y - q| ≤ |toRat v - q|
  even : ∀ v : Float, v.isFinite = true → toRat v ≠ toRat y → |toRat v - q| = |toRat y - q| →
    (decode y).significand % 2 = 0

theorem IsNearest.neg {y : Float} {q : ℚ} (h : IsNearest y q) : IsNearest (-y) (-q) := by
  -- the doubles are the same on the other side of zero
  have hmirror (v : Float) (hv : v.isFinite = true) : |toRat v - -q| = |toRat (-v) - q| := by
    rw [toRat_neg hv, ← abs_neg]
    congr 1
    ring
  have hy : |toRat (-y) - -q| = |toRat y - q| := by
    rw [hmirror _ ((isFinite_neg y).trans h.finite), Binary64.neg_neg]
  refine ⟨(isFinite_neg y).trans h.finite, fun v hv => ?_, fun v hv hne heq => ?_⟩
  · rw [hy, hmirror v hv]
    exact h.nearest (-v) ((isFinite_neg v).trans hv)
  · rw [hy, hmirror v hv] at heq
    rw [decode_neg h.finite]
    refine h.even (-v) ((isFinite_neg v).trans hv) (fun hsame => hne ?_) heq
    rw [toRat_neg hv] at hsame
    rw [toRat_neg h.finite, ← hsame, neg_neg]

theorem IsNearest.signed {y : Float} {q : ℚ} (h : IsNearest y q) (negative : Bool) :
    IsNearest (signed negative y) (if negative then -q else q) := by
  cases negative with
  | false => exact h
  | true => exact h.neg

/-- A double that is not on the grid of a number's last place is further from it than the grid
is. -/
theorem lt_abs_toRat_sub {v : Float} {e : Int} (he : (decode v).exponent < e) {q : ℚ}
    (hq : 2 ^ 52 * (2 : ℚ) ^ e ≤ q) : |2 ^ 52 * (2 : ℚ) ^ e - q| < |toRat v - q| := by
  have hsize : toRat v < 2 ^ 52 * (2 : ℚ) ^ e := by
    have hsignificand : ((decode v).significand : ℚ) < 2 ^ 53 := by
      have hlt := significand_lt v
      rw [fieldUnit_eq] at hlt
      exact_mod_cast hlt
    calc toRat v ≤ |toRat v| := le_abs_self _
      _ = (decode v).significand * (2 : ℚ) ^ (decode v).exponent := abs_toRat v
      _ < 2 ^ 53 * (2 : ℚ) ^ (decode v).exponent :=
          mul_lt_mul_of_pos_right hsignificand (zpow_pos two_pos _)
      _ ≤ 2 ^ 53 * (2 : ℚ) ^ (e - 1) :=
          mul_le_mul_of_nonneg_left (zpow_le_zpow_right₀ one_le_two (by omega)) (by positivity)
      _ = 2 ^ 52 * (2 : ℚ) ^ e := by
          rw [zpow_sub₀ two_ne_zero]
          ring
  rw [abs_of_nonpos (by linarith), abs_of_neg (by linarith)]
  linarith

/-- The exponent with which a ratio is rounded. -/
def lastPlace (r : Ratio) : Int := max (r.floorLog2 - 52) minExponent

/-- The ratio in units of its last place. -/
def inLastPlaces (r : Ratio) : Ratio := r.scale 2 (-lastPlace r)

/-- The bits of the nearest double, as long as they stay below those of infinity. -/
def nearestBits (r : Ratio) : Nat :=
  (lastPlace r - minExponent).toNat * fieldUnit + (inLastPlaces r).round

theorem nearest_eq {r : Ratio} (hnum : 0 < r.num) :
    nearest r = Float.ofBits (UInt64.ofNat (min (nearestBits r) infinityBits)) :=
  if_neg (Nat.ne_of_gt hnum)

/-- A ratio is rounded to infinity if the bits come up to it. -/
theorem nearest_eq_infinity {r : Ratio} (hnum : 0 < r.num) (h : infinityBits ≤ nearestBits r) :
    nearest r = infinity := by
  rw [nearest_eq hnum, Nat.min_eq_right h]
  rfl

theorem isFinite_nearest_iff {r : Ratio} (hnum : 0 < r.num) :
    (nearest r).isFinite = true ↔ nearestBits r < infinityBits := by
  constructor
  · intro hfinite
    by_contra hge
    rw [nearest_eq_infinity hnum (Nat.le_of_not_lt hge)] at hfinite
    exact absurd hfinite (by decide)
  · intro hlt
    rw [nearest_eq hnum, Nat.min_eq_left (Nat.le_of_lt hlt)]
    exact (decode_ofBits hlt).1

theorem toRat_inLastPlaces (r : Ratio) :
    (inLastPlaces r).toRat * (2 : ℚ) ^ lastPlace r = r.toRat := by
  rw [inLastPlaces, Ratio.toRat_scale 2 two_pos, Nat.cast_ofNat, mul_assoc,
    ← zpow_add₀ two_ne_zero, neg_add_cancel, zpow_zero, mul_one]

/-- Distances are measured in units of the last place. -/
theorem abs_mul_lastPlace_sub (r : Ratio) (m : ℚ) : |m * (2 : ℚ) ^ lastPlace r - r.toRat| =
    |m - (inLastPlaces r).toRat| * 2 ^ lastPlace r := by
  have hpow : (0 : ℚ) < 2 ^ lastPlace r := zpow_pos two_pos _
  rw [← toRat_inLastPlaces r, ← sub_mul, abs_mul, abs_of_pos hpow]

section LastPlace

variable {r : Ratio} (hnum : 0 < r.num) (hden : 0 < r.den)

include hden in
theorem den_inLastPlaces_pos : 0 < (inLastPlaces r).den := Ratio.den_scale_pos 2 two_pos _ hden

include hnum hden

/-- The significand has at most 53 bits, -/
theorem toRat_inLastPlaces_lt : (inLastPlaces r).toRat < 2 ^ 53 := by
  have hle : r.floorLog2 + 1 ≤ (53 : Nat) + lastPlace r := by
    rw [lastPlace]
    omega
  refine lt_of_mul_lt_mul_right ?_ (zpow_nonneg two_pos.le (lastPlace r))
  calc (inLastPlaces r).toRat * (2 : ℚ) ^ lastPlace r = r.toRat := toRat_inLastPlaces r
    _ < (2 : ℚ) ^ (r.floorLog2 + 1) := Ratio.lt_floorLog2 hnum hden
    _ ≤ (2 : ℚ) ^ ((53 : Nat) + lastPlace r) := zpow_le_zpow_right₀ one_le_two hle
    _ = 2 ^ 53 * (2 : ℚ) ^ lastPlace r := by rw [zpow_add₀ two_ne_zero, zpow_natCast]

/-- and a leading bit, unless the exponent is the smallest. -/
theorem le_toRat_inLastPlaces (h : minExponent < lastPlace r) :
    2 ^ 52 ≤ (inLastPlaces r).toRat := by
  have heq : (52 : Nat) + lastPlace r = r.floorLog2 := by
    rw [lastPlace] at h ⊢
    omega
  refine le_of_mul_le_mul_right ?_ (zpow_pos two_pos (lastPlace r))
  calc 2 ^ 52 * (2 : ℚ) ^ lastPlace r = (2 : ℚ) ^ ((52 : Nat) + lastPlace r) := by
        rw [zpow_add₀ two_ne_zero, zpow_natCast]
    _ = (2 : ℚ) ^ r.floorLog2 := by rw [heq]
    _ ≤ r.toRat := Ratio.le_floorLog2 hnum hden
    _ = (inLastPlaces r).toRat * (2 : ℚ) ^ lastPlace r := (toRat_inLastPlaces r).symm

/-- What is not larger than the largest double is not rounded to infinity. -/
theorem isFinite_nearest (hle : r.toRat ≤ maxFinite) : (nearest r).isFinite = true := by
  have hsmall : (2 : ℚ) ^ r.floorLog2 < 2 ^ (1024 : Int) :=
    calc (2 : ℚ) ^ r.floorLog2 ≤ r.toRat := Ratio.le_floorLog2 hnum hden
      _ ≤ maxFinite := hle
      _ < 2 ^ (1024 : Int) := maxFinite_lt
  have hlog : r.floorLog2 < 1024 := (zpow_lt_zpow_iff_right₀ one_lt_two).mp hsmall
  have hplace : lastPlace r ≤ 971 := by
    rw [lastPlace, minExponent]
    omega
  have hround : (inLastPlaces r).round ≤ 2 ^ 53 := by
    refine Ratio.round_le (den_inLastPlaces_pos hden) ?_
    exact_mod_cast (toRat_inLastPlaces_lt hnum hden).le
  rw [isFinite_nearest_iff hnum, nearestBits, fieldUnit_eq, infinityBits, minExponent]
  rcases Int.lt_or_eq_of_le hplace with hlt | heq
  · omega
  · -- with the largest exponent the significand is not rounded up to one bit more
    have hlast : (inLastPlaces r).round ≤ 2 ^ 53 - 1 := by
      refine Ratio.round_le (den_inLastPlaces_pos hden) ?_
      refine le_of_mul_le_mul_right ?_ (zpow_pos two_pos (lastPlace r))
      rw [toRat_inLastPlaces, heq]
      refine hle.trans (le_of_eq ?_)
      rw [maxFinite]
      norm_num
    omega

/-- What the nearest double is: the rounded significand in its place. -/
theorem toRat_nearest (hfinite : (nearest r).isFinite = true) :
    toRat (nearest r) = (inLastPlaces r).round * (2 : ℚ) ^ lastPlace r ∧
      (decode (nearest r)).significand % 2 = (inLastPlaces r).round % 2 := by
  have hbits := (isFinite_nearest_iff hnum).mp hfinite
  have hd := den_inLastPlaces_pos hden
  have hround : (inLastPlaces r).round ≤ 2 * fieldUnit := by
    refine Ratio.round_le hd ?_
    rw [fieldUnit_eq]
    exact_mod_cast (toRat_inLastPlaces_lt hnum hden).le
  have hleading : (lastPlace r - minExponent).toNat = 0 ∨ fieldUnit ≤ (inLastPlaces r).round := by
    rcases Int.lt_or_le minExponent (lastPlace r) with hlt | hle
    · refine .inr (Ratio.le_round hd ?_)
      rw [fieldUnit_eq]
      exact_mod_cast le_toRat_inLastPlaces hnum hden hlt
    · exact .inl (by omega)
  have hplace : ((lastPlace r - minExponent).toNat : Int) + minExponent = lastPlace r := by
    have hmin : minExponent ≤ lastPlace r := Int.le_max_right _ _
    omega
  obtain ⟨hvalue, hparity⟩ := toRat_ofBits hround hleading hbits
  rw [hplace] at hvalue
  rw [nearest_eq hnum, Nat.min_eq_left (Nat.le_of_lt hbits)]
  exact ⟨hvalue, hparity⟩

/-- No multiple of the last place is nearer than the nearest double. -/
theorem abs_toRat_nearest_sub_le (hfinite : (nearest r).isFinite = true) (m : Int) :
    |toRat (nearest r) - r.toRat| ≤ |m * (2 : ℚ) ^ lastPlace r - r.toRat| := by
  rw [(toRat_nearest hnum hden hfinite).1, abs_mul_lastPlace_sub, abs_mul_lastPlace_sub]
  exact mul_le_mul_of_nonneg_right
    (Ratio.abs_round_sub_le_abs_sub (den_inLastPlaces_pos hden) m) (zpow_nonneg two_pos.le _)

/-- Every other double is a multiple of the last place, or it is further away. -/
theorem multiple_or_further (hfinite : (nearest r).isFinite = true) (v : Float) :
    (∃ m : Int, toRat v = m * (2 : ℚ) ^ lastPlace r) ∨
      |toRat (nearest r) - r.toRat| < |toRat v - r.toRat| := by
  rcases Int.lt_or_le (decode v).exponent (lastPlace r) with hlt | hge
  · right
    have hlarge : 2 ^ 52 * (2 : ℚ) ^ lastPlace r ≤ r.toRat := by
      have hmin := Int.lt_of_le_of_lt (minExponent_le v) hlt
      rw [← toRat_inLastPlaces r]
      exact mul_le_mul_of_nonneg_right (le_toRat_inLastPlaces hnum hden hmin)
        (zpow_nonneg two_pos.le _)
    have hgrid := abs_toRat_nearest_sub_le hnum hden hfinite (2 ^ 52)
    push_cast at hgrid
    exact hgrid.trans_lt (lt_abs_toRat_sub hlt hlarge)
  · exact .inl (exists_toRat_eq hge)

/-- **A ratio is read as a nearest double**, unless it is rounded to infinity. -/
theorem isNearest_nearest (hfinite : (nearest r).isFinite = true) :
    IsNearest (nearest r) r.toRat := by
  obtain ⟨hvalue, hparity⟩ := toRat_nearest hnum hden hfinite
  refine ⟨hfinite, fun v _ => ?_, fun v _ hne htie => ?_⟩
  · rcases multiple_or_further hnum hden hfinite v with ⟨m, hm⟩ | hlt
    · rw [hm]
      exact abs_toRat_nearest_sub_le hnum hden hfinite m
    · exact hlt.le
  · rcases multiple_or_further hnum hden hfinite v with ⟨m, hm⟩ | hlt
    · -- of two multiples that are as near, the even one is taken
      rw [hparity]
      refine Ratio.even_round_of_ne (den_inLastPlaces_pos hden) (m := m) (fun hsame => hne ?_) ?_
      · rw [hm, hvalue, hsame, Int.cast_natCast]
      · rw [hm, hvalue, abs_mul_lastPlace_sub, abs_mul_lastPlace_sub] at htie
        exact le_of_mul_le_mul_right htie.le (zpow_pos two_pos _)
    · exact absurd htie (ne_of_gt hlt)

end LastPlace

/-! ### Reading decimals -/

/-- Next to zero, zero is the nearest double. -/
theorem isNearest_zero {q : ℚ} (h0 : 0 ≤ q) (hq : 2 * q < (2 : ℚ) ^ minExponent) :
    IsNearest 0 q := by
  have hzero : toRat 0 = 0 := by
    have hdecode : decode 0 = ⟨false, 0, minExponent⟩ := by decide +kernel
    rw [toRat, Parts.toRat_magnitude, hdecode]
    simp
  refine ⟨rfl, fun v _ => ?_, fun _ _ _ _ => by decide +kernel⟩
  rw [hzero, zero_sub, abs_neg, abs_of_nonneg h0]
  obtain ⟨m, hm⟩ := exists_toRat_eq (minExponent_le v)
  by_cases hm0 : m = 0
  · rw [hm, hm0, Int.cast_zero, zero_mul, zero_sub, abs_neg, abs_of_nonneg h0]
  · have hone : (1 : ℚ) ≤ |(m : ℚ)| := by exact_mod_cast Int.one_le_abs hm0
    have hpow : (0 : ℚ) < 2 ^ minExponent := zpow_pos two_pos _
    have hsize : (2 : ℚ) ^ minExponent ≤ |toRat v| := by
      rw [hm, abs_mul, abs_of_pos hpow]
      exact le_mul_of_one_le_left hpow.le hone
    have htriangle := abs_sub_abs_le_abs_sub (toRat v) q
    rw [abs_of_nonneg h0] at htriangle
    linarith

/-- The bounds of the decimals that are settled by their exponent alone. -/
theorem two_zpow_le_ten_zpow : (2 : ℚ) ^ (1075 : Int) ≤ 10 ^ (400 : Int) := by
  have hpow : ((2 : ℚ) ^ 43) ^ 25 ≤ (10 ^ 16) ^ 25 :=
    pow_le_pow_left₀ (by norm_num) (by norm_num) 25
  rw [← pow_mul, ← pow_mul, ← zpow_natCast, ← zpow_natCast] at hpow
  exact hpow

section Decimal

variable {coefficient : Nat} {exponent : Int}

/-- A decimal with a large exponent is too large for a double. -/
theorem maxFinite_lt_decimal (hpos : 0 < coefficient) (hlarge : 400 < exponent) :
    maxFinite < coefficient * (10 : ℚ) ^ exponent := by
  have hcast : (1 : ℚ) ≤ coefficient := by exact_mod_cast hpos
  have hten : (0 : ℚ) ≤ 10 ^ exponent := zpow_nonneg (by norm_num) _
  calc maxFinite < 2 ^ (1024 : Int) := maxFinite_lt
    _ ≤ 2 ^ (1075 : Int) := zpow_le_zpow_right₀ one_le_two (by decide)
    _ ≤ 10 ^ (400 : Int) := two_zpow_le_ten_zpow
    _ ≤ 10 ^ exponent := zpow_le_zpow_right₀ (by norm_num) hlarge.le
    _ ≤ coefficient * 10 ^ exponent := le_mul_of_one_le_left hten hcast

/-- A decimal with few digits and a small exponent is next to zero. -/
theorem two_mul_decimal_lt (hsmall : exponent + (coefficient.log2 + 1 : Nat) < -400) :
    2 * (coefficient * (10 : ℚ) ^ exponent) < 2 ^ minExponent := by
  have hten : (0 : ℚ) < 10 := by norm_num
  have hdigits : (coefficient : ℚ) < 10 ^ ((coefficient.log2 + 1 : Nat) : Int) :=
    calc (coefficient : ℚ) < 2 ^ ((coefficient.log2 : Int) + 1) :=
          Ratio.lt_two_zpow_log2 coefficient
      _ ≤ 10 ^ ((coefficient.log2 : Int) + 1) :=
          zpow_le_zpow_left₀ (by omega) two_pos.le (by norm_num)
  have hinv := inv_anti₀ (zpow_pos two_pos _) two_zpow_le_ten_zpow
  rw [← zpow_neg, ← zpow_neg] at hinv
  calc 2 * (coefficient * (10 : ℚ) ^ exponent)
      < 2 * (10 ^ ((coefficient.log2 + 1 : Nat) : Int) * 10 ^ exponent) := by gcongr
    _ = 2 * 10 ^ (exponent + (coefficient.log2 + 1 : Nat)) := by
        rw [← zpow_add₀ (ne_of_gt hten), Int.add_comm exponent]
    _ ≤ 2 * 10 ^ (-400 : Int) :=
        mul_le_mul_of_nonneg_left (zpow_le_zpow_right₀ (by norm_num) hsmall.le) two_pos.le
    _ ≤ 2 * 2 ^ (-1075 : Int) := mul_le_mul_of_nonneg_left hinv two_pos.le
    _ = 2 ^ minExponent := by
        rw [show (-1075 : Int) = minExponent - 1 from rfl, zpow_sub₀ two_ne_zero]
        ring

/-- **A decimal is read as a nearest double.** -/
theorem isNearest_nearestDecimal (hle : coefficient * (10 : ℚ) ^ exponent ≤ maxFinite) :
    IsNearest (Decimal.nearestDecimal coefficient exponent)
      (coefficient * (10 : ℚ) ^ exponent) := by
  rcases Nat.eq_zero_or_pos coefficient with rfl | hpos
  · rw [Nat.cast_zero, zero_mul]
    exact isNearest_zero le_rfl (by rw [mul_zero]; exact zpow_pos two_pos _)
  rw [Decimal.nearestDecimal, if_neg (Nat.ne_of_gt hpos)]
  -- decimals that are far out are settled by their exponent alone
  split
  · next hlarge => exact absurd hle (not_le.mpr (maxFinite_lt_decimal hpos hlarge))
  · split
    · next hsmall => exact isNearest_zero (by positivity) (two_mul_decimal_lt hsmall)
    · have hvalue : ((Ratio.mk coefficient 1).scale 10 exponent).toRat =
          coefficient * (10 : ℚ) ^ exponent := by
        rw [Ratio.toRat_scale 10 (by decide), Ratio.toRat]
        simp
      rw [← hvalue] at hle ⊢
      have hnum : 0 < ((Ratio.mk coefficient 1).scale 10 exponent).num :=
        Nat.mul_pos hpos (Nat.pow_pos (by decide))
      have hden := Ratio.den_scale_pos 10 (by decide) (r := ⟨coefficient, 1⟩) exponent Nat.one_pos
      exact isNearest_nearest hnum hden (isFinite_nearest hnum hden hle)

end Decimal

end Argand.Binary64
