import Argand.Binary64.Elementary
import Mathlib

/-!
# Laws of doubles

What the arithmetic of doubles keeps exactly: which double a zero is, when the sign of
a zero is lost, and that only the origin has distance zero from itself.

## Main definitions

* `form x`, `ofForm u` — a double as a signed zero, a signed infinity, a finite number
  or none of these, and back.
* `Opposite a b` — zeros of opposite signs.

## Main results

* `ofForm_form` — **a double is determined by its form.**
* `Opposite.sub_right_iff`, `Opposite.add_right_iff`, … — when a sum or a difference
  tells which of the two zeros it was made of.
* `Opposite.mul_sub_iff`, `Opposite.mul_add_iff`, … — the same for a product with one of
  the zeros.
* `form_neg`, `neg_one_mul` — negation changes the sign and nothing else, and is the
  product with minus one.
* `sub_eq_add_neg` — a difference is the sum with the negated number.
* `hypot_beq_zero` — the distance is zero at the origin only.
-/

namespace Argand.Binary64

open Float.Model (Format UnpackedFloat totalExponent)
open Float.Model.UnpackedFloat (Sign packComponents unpackSign unpackExponent unpackMantissa
  ExtendedMantissa roundWithAccuracy shiftToExponent shiftToTargetExponent)

/-! ### Forms -/

/-- What a double is: undefined, a signed infinity, a signed zero, or a finite
number. -/
def form (x : Float) : UnpackedFloat := x.toModel.unpack

/-- The double of a form. -/
def ofForm (u : UnpackedFloat) : Float := .ofModel (.pack u)

/-- **A double is determined by its form.** -/
@[simp] theorem ofForm_form (x : Float) : ofForm (form x) = x := by
  obtain ⟨bits, hbits⟩ := x
  have h := UnpackedFloat.pack_unpack_of_valid hbits
  simp only [ofForm, form, Float.Model.pack, Float.Model.unpack, h]

theorem form_injective {x y : Float} (h : form x = form y) : x = y := by
  rw [← ofForm_form x, h, ofForm_form]

@[simp] theorem form_ofForm_zero (s : Sign) : form (ofForm (.zero s)) = .zero s := by
  cases s <;> rfl

@[simp] theorem form_ofForm_notANumber : form (ofForm .notANumber) = .notANumber := rfl

theorem ofForm_zero_inj {s t : Sign} : ofForm (.zero s) = ofForm (.zero t) ↔ s = t := by
  constructor
  · intro h
    have hform := congrArg form h
    rw [form_ofForm_zero, form_ofForm_zero] at hform
    exact UnpackedFloat.zero.inj hform
  · rintro rfl
    rfl

/-! ### Operations on forms -/

theorem add_eq (x y : Float) :
    x + y = ofForm (UnpackedFloat.add Format.binary64 (form x) (form y)) := rfl

theorem sub_eq (x y : Float) :
    x - y = ofForm (UnpackedFloat.sub Format.binary64 (form x) (form y)) := rfl

theorem mul_eq (x y : Float) :
    x * y = ofForm (UnpackedFloat.mul Format.binary64 (form x) (form y)) := rfl

theorem neg_eq (x : Float) : -x = ofForm (form x).neg := rfl

theorem isFinite_eq (x : Float) : x.isFinite = (form x).isFinite := rfl

theorem eq_zero_iff {x : Float} : x = 0 ↔ form x = .zero .positive := by
  constructor
  · rintro rfl
    rfl
  · exact form_injective (y := 0)

theorem eq_negZero_iff {x : Float} : x = -0.0 ↔ form x = .zero .negative := by
  constructor
  · rintro rfl
    rfl
  · exact form_injective (y := -0.0)

/-- A double equals zero if it is one of the two zeros. -/
theorem beq_zero_iff {x : Float} : (x == 0) = true ↔ ∃ s, form x = .zero s := by
  have h : (x == 0) = (form x).beq (.zero .positive) := rfl
  rw [h]
  cases form x with
  | notANumber => simp [UnpackedFloat.beq, UnpackedFloat.compare]
  | infinity s => cases s <;> simp [UnpackedFloat.beq, UnpackedFloat.compare]
  | zero s => simp [UnpackedFloat.beq, UnpackedFloat.compare]
  | finite s m e hm => cases s <;> simp [UnpackedFloat.beq, UnpackedFloat.compare]

/-! ### Negation -/

@[simp] theorem neg_negative : -Sign.negative = .positive := rfl

@[simp] theorem neg_positive : -Sign.positive = .negative := rfl

/-- The other sign bit stands for the negation. -/
theorem unpack_packComponents_neg (b : BitVec Format.binary64.numBits) :
    UnpackedFloat.unpack Format.binary64 (packComponents Format.binary64
      (-Sign.ofBitVec (unpackSign b)) (unpackExponent b) (unpackMantissa b)) =
      (UnpackedFloat.unpack Format.binary64 b).neg := by
  unfold UnpackedFloat.unpack
  dsimp only
  simp only [UnpackedFloat.unpackExponent_packComponents,
    UnpackedFloat.unpackMantissa_packComponents, UnpackedFloat.unpackSign_packComponents,
    Sign.ofBitVec_toBitVec]
  split
  · split <;> rfl
  · split
    · split <;> rfl
    · rfl

/-- Negation changes the sign and nothing else. -/
theorem form_neg (x : Float) : form (-x) = (form x).neg := by
  obtain ⟨bits, hbits⟩ := x
  let b : BitVec Format.binary64.numBits := bits.toBitVec
  change UnpackedFloat.unpack Format.binary64 (UnpackedFloat.pack Format.binary64
    (UnpackedFloat.unpack Format.binary64 b).neg) = (UnpackedFloat.unpack Format.binary64 b).neg
  by_cases hnan : b = UnpackedFloat.packedNaN Format.binary64
  · rw [hnan, UnpackedFloat.unpack_packedNaN]
    rfl
  · rw [← unpack_packComponents_neg b, UnpackedFloat.pack_unpack_of_valid]
    refine ⟨fun hinf hmantissa => absurd (hbits.eq_packedNaN ?_ ?_) hnan⟩
    · rw [UnpackedFloat.unpackExponent_packComponents] at hinf
      exact hinf
    · rw [UnpackedFloat.unpackMantissa_packComponents] at hmantissa
      exact hmantissa

protected theorem neg_neg (x : Float) : - -x = x := by
  apply form_injective
  rw [form_neg, form_neg]
  cases form x with
  | notANumber => rfl
  | infinity s => cases s <;> rfl
  | zero s => cases s <;> rfl
  | finite s m e hm => cases s <;> rfl

theorem neg_eq_zero_iff {x : Float} : -x = 0 ↔ x = -0.0 := by
  constructor
  · intro h
    rw [← Binary64.neg_neg x, h]
    rfl
  · rintro rfl
    rfl

theorem neg_eq_negZero_iff {x : Float} : -x = -0.0 ↔ x = 0 := by
  rw [← neg_eq_zero_iff, Binary64.neg_neg]

/-! ### Sums, differences and products -/

protected theorem add_comm (x y : Float) : x + y = y + x := by
  rw [add_eq, add_eq]
  congr 1
  cases form x with
  | notANumber => cases form y <;> rfl
  | infinity s =>
    cases form y with
    | infinity t => cases s <;> cases t <;> rfl
    | _ => rfl
  | zero s =>
    cases form y with
    | zero t => cases s <;> cases t <;> rfl
    | _ => rfl
  | finite s m e hm =>
    cases form y with
    | finite t n d hn => simp only [UnpackedFloat.add, Int.add_comm, Int.min_comm]
    | _ => rfl

/-- A difference is the sum with the negated number. -/
protected theorem sub_eq_add_neg (x y : Float) : x - y = x + -y := by
  rw [sub_eq, add_eq, form_neg]
  congr 1
  cases form x with
  | notANumber => cases form y <;> rfl
  | infinity s => cases form y <;> rfl
  | zero s => cases form y <;> rfl
  | finite s m e hm =>
    cases form y with
    | finite t n d hn =>
      have happly : ∀ k : Nat, (-t).apply k = -t.apply k := by
        intro k
        cases t with
        | positive => rfl
        | negative => exact (Int.neg_neg _).symm
      simp only [UnpackedFloat.sub, UnpackedFloat.add, UnpackedFloat.neg, happly,
        Int.sub_eq_add_neg]
    | _ => rfl

protected theorem mul_comm (x y : Float) : x * y = y * x := by
  have hsign : ∀ s t : Sign, s * t = t * s := by rintro (_ | _) (_ | _) <;> rfl
  rw [mul_eq, mul_eq]
  congr 1
  cases form x <;> cases form y <;>
    simp only [UnpackedFloat.mul, hsign, Nat.mul_comm, Int.add_comm]

/-- An undefined operand makes the result undefined. -/
theorem add_of_notANumber {x y : Float} (h : form x = .notANumber ∨ form y = .notANumber) :
    x + y = undefined := by
  rw [add_eq]
  rcases h with hx | hy
  · rw [hx]
    rfl
  · rw [hy]
    cases form x <;> rfl

theorem sub_of_notANumber {x y : Float} (h : form x = .notANumber ∨ form y = .notANumber) :
    x - y = undefined := by
  rw [Binary64.sub_eq_add_neg]
  refine add_of_notANumber (h.imp_right fun hy => ?_)
  rw [form_neg, hy]
  rfl

/-! ### Zeros in sums and products -/

/-- The sign of a sum of zeros; only two negative ones have a negative sum. -/
def signOfSum : Sign → Sign → Sign
  | .negative, .negative => .negative
  | _, _ => .positive

theorem add_zero_zero (s t : Sign) :
    UnpackedFloat.add Format.binary64 (.zero s) (.zero t) = .zero (signOfSum s t) := by
  cases s <;> cases t <;> rfl

theorem sub_zero_zero (s t : Sign) :
    UnpackedFloat.sub Format.binary64 (.zero s) (.zero t) = .zero (signOfSum s (-t)) := by
  cases s <;> cases t <;> rfl

/-- A finite number has a sign, which decides about its products with zeros. -/
theorem exists_sign_of_isFinite {x : Float} (hx : x.isFinite) :
    ∃ t : Sign, ∀ {a : Float} {s : Sign}, form a = .zero s → form (a * x) = .zero (s * t) := by
  rw [isFinite_eq] at hx
  cases hform : form x with
  | notANumber => rw [hform] at hx; exact absurd hx (by decide)
  | infinity t => rw [hform] at hx; exact absurd hx (by simp [UnpackedFloat.isFinite])
  | zero t =>
    refine ⟨t, fun {a} {s} ha => ?_⟩
    rw [mul_eq, ha, hform]
    exact form_ofForm_zero _
  | finite t m e hm =>
    refine ⟨t, fun {a} {s} ha => ?_⟩
    rw [mul_eq, ha, hform]
    exact form_ofForm_zero _

/-- An infinite or undefined multiple of a zero is undefined. -/
theorem form_mul_of_not_isFinite {a x : Float} {s : Sign} (ha : form a = .zero s)
    (hx : ¬x.isFinite) : form (a * x) = .notANumber := by
  rw [isFinite_eq] at hx
  rw [mul_eq, ha]
  cases hform : form x with
  | notANumber => exact form_ofForm_notANumber
  | infinity t => exact form_ofForm_notANumber
  | zero t => rw [hform] at hx; exact absurd rfl hx
  | finite t m e hm => rw [hform] at hx; exact absurd rfl hx

/-! ### Zeros of opposite signs -/

/-- Zeros of opposite signs. -/
def Opposite (a b : Float) : Prop := ∃ s, form a = .zero s ∧ form b = .zero (-s)

namespace Opposite

variable {a b : Float}

protected theorem neg (h : Opposite a b) : Opposite (-a) (-b) := by
  obtain ⟨s, ha, hb⟩ := h
  refine ⟨-s, ?_, ?_⟩
  · rw [form_neg, ha]
    rfl
  · rw [form_neg, hb]
    rfl

/-- A number added to zeros of opposite signs tells them apart if and only if it is a
negative zero. -/
theorem add_right_iff (h : Opposite a b) (y : Float) : a + y = b + y ↔ y ≠ -0.0 := by
  obtain ⟨s, ha, hb⟩ := h
  rw [add_eq, add_eq, ha, hb, ne_eq, eq_negZero_iff]
  cases form y with
  | notANumber => simp [UnpackedFloat.add]
  | infinity t => simp [UnpackedFloat.add]
  | zero t =>
    rw [add_zero_zero, add_zero_zero, ofForm_zero_inj]
    cases s <;> cases t <;> simp [signOfSum]
  | finite t m e hm => simp [UnpackedFloat.add]

theorem add_left_iff (h : Opposite a b) (y : Float) : y + a = y + b ↔ y ≠ -0.0 := by
  rw [Binary64.add_comm y, Binary64.add_comm y]
  exact h.add_right_iff y

/-- A number taken from zeros of opposite signs tells them apart if and only if it is a
positive zero. -/
theorem sub_right_iff (h : Opposite a b) (y : Float) : a - y = b - y ↔ y ≠ 0 := by
  rw [Binary64.sub_eq_add_neg, Binary64.sub_eq_add_neg, h.add_right_iff, ne_eq,
    neg_eq_negZero_iff]

/-- Zeros of opposite signs that are taken from a number are told apart if and only if
it is a negative zero. -/
theorem sub_left_iff (h : Opposite a b) (y : Float) : y - a = y - b ↔ y ≠ -0.0 := by
  rw [Binary64.sub_eq_add_neg, Binary64.sub_eq_add_neg, h.neg.add_left_iff]

/-- A negative zero that is added leaves zeros as they are. -/
theorem add_negZero (h : Opposite a b) {y : Float} (hy : y = -0.0) :
    Opposite (a + y) (b + y) := by
  obtain ⟨s, ha, hb⟩ := h
  subst hy
  refine ⟨s, ?_, ?_⟩
  · rw [add_eq, ha]
    cases s <;> rfl
  · rw [add_eq, hb]
    cases s <;> rfl

/-- A positive zero that is taken away leaves zeros as they are. -/
theorem sub_zero (h : Opposite a b) {y : Float} (hy : y = 0) : Opposite (a - y) (b - y) := by
  rw [Binary64.sub_eq_add_neg, Binary64.sub_eq_add_neg]
  exact h.add_negZero (neg_eq_negZero_iff.mpr hy)

/-- Finite multiples of zeros of opposite signs have opposite signs. -/
theorem mul_right (h : Opposite a b) {x : Float} (hx : x.isFinite) : Opposite (a * x) (b * x) := by
  obtain ⟨s, ha, hb⟩ := h
  obtain ⟨t, ht⟩ := exists_sign_of_isFinite hx
  have hsign : -s * t = -(s * t) := by cases s <;> cases t <;> rfl
  exact ⟨s * t, ht ha, (ht hb).trans (by rw [hsign])⟩

/-- Other multiples of zeros do not tell them apart. -/
theorem mul_right_eq (h : Opposite a b) {x : Float} (hx : ¬x.isFinite) : a * x = b * x := by
  obtain ⟨s, ha, hb⟩ := h
  apply form_injective
  rw [form_mul_of_not_isFinite ha hx, form_mul_of_not_isFinite hb hx]

/-- What tells zeros of opposite signs apart unless `p` tells their finite multiples
apart unless `p`, and no others. -/
theorem apply_mul_iff {f : Float → Float} {p : Prop} (h : Opposite a b)
    (hf : ∀ {c d}, Opposite c d → (f c = f d ↔ ¬p)) (x : Float) :
    f (a * x) = f (b * x) ↔ ¬(x.isFinite ∧ p) := by
  by_cases hx : x.isFinite
  · rw [hf (h.mul_right hx)]
    simp [hx]
  · simp [h.mul_right_eq hx, hx]

theorem mul_sub_iff (h : Opposite a b) (x y : Float) :
    a * x - y = b * x - y ↔ ¬(x.isFinite ∧ y = 0) :=
  h.apply_mul_iff (fun h => h.sub_right_iff y) x

theorem sub_mul_iff (h : Opposite a b) (x y : Float) :
    y - a * x = y - b * x ↔ ¬(x.isFinite ∧ y = -0.0) :=
  h.apply_mul_iff (fun h => h.sub_left_iff y) x

theorem mul_add_iff (h : Opposite a b) (x y : Float) :
    a * x + y = b * x + y ↔ ¬(x.isFinite ∧ y = -0.0) :=
  h.apply_mul_iff (fun h => h.add_right_iff y) x

theorem add_mul_iff (h : Opposite a b) (x y : Float) :
    y + a * x = y + b * x ↔ ¬(x.isFinite ∧ y = -0.0) :=
  h.apply_mul_iff (fun h => h.add_left_iff y) x

end Opposite

/-! ### Significands -/

theorem fieldUnit_eq : fieldUnit = 4503599627370496 := rfl

theorem fieldSize_eq : fieldSize = 2048 := rfl

theorem toNat_unpackMantissa (b : BitVec Format.binary64.numBits) :
    (unpackMantissa b).toNat = b.toNat % fieldUnit := by
  simp [unpackMantissa, fieldUnit]

theorem toNat_unpackExponent (b : BitVec Format.binary64.numBits) :
    (unpackExponent b).toNat = b.toNat / fieldUnit % fieldSize := by
  simp [unpackExponent, Nat.shiftRight_eq_div_pow, fieldUnit, fieldSize]

theorem log2_toNat_lt {m : BitVec 52} (h : m ≠ 0#52) : m.toNat.log2 < 52 := by
  have hm : m.toNat ≠ 0 := fun h0 => h (BitVec.eq_of_toNat_eq h0)
  exact (Nat.log2_lt hm).mpr m.isLt

/-- The leading bit of a normal number stands above the stored ones. -/
theorem toNat_one_append (m : BitVec 52) : (1#1 ++ m).toNat = m.toNat + fieldUnit := by
  rw [BitVec.toNat_append, ← Nat.shiftLeft_add_eq_or_of_lt m.isLt, Nat.shiftLeft_eq, Nat.add_comm]
  rfl

theorem log2_one_append (m : BitVec 52) : (1#1 ++ m).toNat.log2 = 52 := by
  have hm : m.toNat < 4503599627370496 := m.isLt
  rw [toNat_one_append, fieldUnit_eq]
  refine (Nat.log2_eq_iff (by omega)).mpr ⟨?_, ?_⟩ <;> omega

/-! ### Multiplication by one -/

/-- The exponent a finite number has in its format. -/
def Canonical : UnpackedFloat → Prop
  | .finite _ m e _ => Format.binary64.targetExponent (totalExponent m e) = e
  | _ => True

theorem targetExponent_eq (e : Int) : Format.binary64.targetExponent e = max (e - 53) (-1074) := rfl

theorem canonical_form (x : Float) : Canonical (form x) := by
  obtain ⟨bits, hbits⟩ := x
  let b : BitVec Format.binary64.numBits := bits.toBitVec
  change Canonical (UnpackedFloat.unpack Format.binary64 b)
  have hbias : (Format.binary64.exponentBias : Int) = 1023 := rfl
  unfold UnpackedFloat.unpack
  dsimp only
  split
  · split <;> trivial
  · split
    · next hsub =>
      split
      · trivial
      · next hpos =>
        have hlog := log2_toNat_lt hpos
        have hzero : (unpackExponent b).toNat = 0 := by rw [hsub]; rfl
        rw [Canonical, targetExponent_eq, totalExponent]
        omega
    · next hnormal =>
      have hpos : (unpackExponent b).toNat ≠ 0 := fun h => hnormal (BitVec.eq_of_toNat_eq h)
      rw [Canonical, targetExponent_eq, totalExponent, log2_one_append]
      omega

/-- Shifting drops no bits of a multiple of the power of two. -/
theorem repeat_shiftRightOne (k m : Nat) :
    k.repeat ExtendedMantissa.shiftRightOne ⟨m * Nat.pow 2 k, false, false⟩ =
      ⟨m, false, false⟩ := by
  induction k generalizing m with
  | zero => rw [Nat.repeat, show m * Nat.pow 2 0 = m from Nat.mul_one m]
  | succ k ih =>
    have hpow : m * Nat.pow 2 (k + 1) = 2 * m * Nat.pow 2 k := by
      change m * (Nat.pow 2 k * 2) = _
      rw [Nat.mul_comm 2 m, Nat.mul_assoc, Nat.mul_comm 2]
    rw [hpow, Nat.repeat, ih (2 * m), ExtendedMantissa.shiftRightOne]
    simp

theorem log2_mul_fieldUnit {m : Nat} (hm : 0 < m) : (m * fieldUnit).log2 = m.log2 + 52 := by
  have hlo := Nat.log2_self_le (Nat.ne_of_gt hm)
  have hhi : m < _ := @Nat.lt_log2_self m
  rw [fieldUnit_eq]
  refine (Nat.log2_eq_iff (by omega)).mpr ⟨?_, ?_⟩
  · rw [Nat.pow_add]
    omega
  · rw [Nat.add_right_comm, Nat.pow_add]
    omega

/-- A number with the exponent of its format keeps its form. -/
theorem shiftToTargetExponent_canonical {m : Nat} {e : Int}
    (he : Format.binary64.targetExponent (totalExponent m e) = e) :
    shiftToTargetExponent Format.binary64 m e .exact = (⟨m, false, false⟩, e) := by
  have hshift : (e - e).toNat = 0 := by omega
  unfold shiftToTargetExponent shiftToExponent
  dsimp only
  rw [he, hshift]
  exact Prod.ext rfl (Int.add_zero e)

/-- A number that is written with 52 bits too many gets back to its form. -/
theorem shiftToTargetExponent_scaled {m : Nat} {e : Int} (hm : 0 < m)
    (he : Format.binary64.targetExponent (totalExponent m e) = e) :
    shiftToTargetExponent Format.binary64 (m * fieldUnit) (e + -52) .exact =
      (⟨m, false, false⟩, e) := by
  have htotal : totalExponent (m * fieldUnit) (e + -52) = totalExponent m e := by
    rw [totalExponent, totalExponent, log2_mul_fieldUnit hm]
    omega
  have hshift : (e - (e + -52)).toNat = 52 := by omega
  unfold shiftToTargetExponent shiftToExponent
  dsimp only
  rw [htotal, he, hshift]
  refine Prod.ext (repeat_shiftRightOne 52 m) ?_
  change e + -52 + 52 = e
  omega

/-- A number that is written with 52 bits too many is rounded to itself. -/
theorem roundWithAccuracy_scaled (s : Sign) {m : Nat} {e : Int} (hm : 0 < m)
    (he : Format.binary64.targetExponent (totalExponent m e) = e) :
    roundWithAccuracy Format.binary64 s (m * fieldUnit) (e + -52) .exact = .finite s m e hm := by
  have hrounded : (ExtendedMantissa.mk m false false).roundedMantissa = m := rfl
  unfold roundWithAccuracy
  rw [shiftToTargetExponent_scaled hm he]
  dsimp only
  rw [hrounded]
  simp only [shiftToTargetExponent_canonical he]
  exact dif_neg (Nat.ne_of_gt hm)

theorem form_neg_one : form (-1) = .finite .negative fieldUnit (-52) (by decide) := rfl

protected theorem neg_one_mul (x : Float) : -1 * x = -x := by
  rw [Binary64.mul_comm, mul_eq, form_neg_one, neg_eq]
  have hx := canonical_form x
  cases hform : form x with
  | notANumber => rfl
  | infinity s => cases s <;> rfl
  | zero s => cases s <;> rfl
  | finite s m e hm =>
    rw [hform] at hx
    simp only [UnpackedFloat.mul, UnpackedFloat.neg, roundWithAccuracy_scaled _ hm hx]
    have hsign : s * .negative = -s := by cases s <;> rfl
    rw [hsign]

/-! ### Distance -/

/-- A zero has nothing in its exponent and its significand. -/
theorem exists_unpack_eq_zero_iff (b : BitVec Format.binary64.numBits) :
    (∃ s, UnpackedFloat.unpack Format.binary64 b = .zero s) ↔
      (unpackExponent b).toNat = 0 ∧ (unpackMantissa b).toNat = 0 := by
  unfold UnpackedFloat.unpack
  dsimp only
  split
  · next hinf =>
    have hexponent : (unpackExponent b).toNat = 2047 := by rw [hinf]; rfl
    split <;> simp [hexponent]
  · split
    · next hsub =>
      have hexponent : (unpackExponent b).toNat = 0 := by rw [hsub]; rfl
      split
      · next hzero => simp [hexponent, hzero]
      · next hpos =>
        have hmantissa : (unpackMantissa b).toNat ≠ 0 := fun h => hpos (BitVec.eq_of_toNat_eq h)
        simp [hmantissa]
    · next hnormal =>
      have hexponent : (unpackExponent b).toNat ≠ 0 := fun h => hnormal (BitVec.eq_of_toNat_eq h)
      simp [hexponent]

theorem significand_eq_zero_iff {x : Float} : (decode x).significand = 0 ↔ (x == 0) = true := by
  obtain ⟨bits, hbits⟩ := x
  rw [beq_zero_iff]
  refine Iff.trans ?_ (exists_unpack_eq_zero_iff bits.toBitVec).symm
  rw [toNat_unpackExponent, toNat_unpackMantissa]
  change (if bits.toNat / fieldUnit % fieldSize = 0 then _ else _ : Parts).significand = 0 ↔
    bits.toNat / fieldUnit % fieldSize = 0 ∧ bits.toNat % fieldUnit = 0
  split
  · next h => exact ⟨fun h0 => ⟨h, h0⟩, fun h0 => h0.2⟩
  · next h =>
    have hunit : 0 < fieldUnit := by decide
    exact ⟨fun h0 => absurd h0 (Nat.ne_of_gt (Nat.add_pos_right _ hunit)), fun h0 => absurd h0.1 h⟩

theorem minExponent_le (x : Float) : minExponent ≤ (decode x).exponent := by
  unfold decode
  dsimp only
  split <;> dsimp only <;> omega

/-- Up to infinity every natural number is the bits of a double. -/
theorem valid_ofNat {n : Nat} (hn : n ≤ infinityBits) :
    Format.binary64.Valid (UInt64.ofNat n).toBitVec := by
  have hlt : n < 18446744073709551616 := Nat.lt_of_le_of_lt hn (by decide)
  let b : BitVec Format.binary64.numBits := (UInt64.ofNat n).toBitVec
  have hb : b.toNat = n := Nat.mod_eq_of_lt hlt
  have hexponent := toNat_unpackExponent b
  have hmantissa := toNat_unpackMantissa b
  rw [hb, fieldUnit_eq] at hexponent hmantissa
  rw [fieldSize_eq] at hexponent
  rw [infinityBits] at hn
  refine ⟨fun hinf hnan => ?_⟩
  have h2047 : (unpackExponent b).toNat = 2047 := by rw [hinf]; rfl
  have hne : (unpackMantissa b).toNat ≠ 0 := fun h => hnan (BitVec.eq_of_toNat_eq h)
  omega

theorem toNat_toBits_ofBits {n : Nat} (hn : n ≤ infinityBits) :
    (Float.ofBits (UInt64.ofNat n)).toBits.toNat = n := by
  have hlt : n < 18446744073709551616 := Nat.lt_of_le_of_lt hn (by decide)
  have hpack := UnpackedFloat.pack_unpack_of_valid (valid_ofNat hn)
  change (UnpackedFloat.pack Format.binary64
    (UnpackedFloat.unpack Format.binary64 (UInt64.ofNat n).toBitVec)).toNat = n
  rw [hpack]
  exact Nat.mod_eq_of_lt hlt

theorem ofBits_beq_zero {n : Nat} (hn : n ≤ infinityBits) (hpos : 0 < n) :
    (Float.ofBits (UInt64.ofNat n) == 0) = false := by
  rw [Bool.eq_false_iff, ne_eq, ← significand_eq_zero_iff, decode, toNat_toBits_ofBits hn,
    fieldUnit_eq, fieldSize_eq]
  rw [infinityBits] at hn
  split
  · dsimp only
    omega
  · dsimp only
    omega

/-- A ratio that is not below the smallest positive double is not rounded to zero. -/
theorem nearest_beq_zero {r : Ratio} (hden : 0 < r.den)
    (h : r.den ≤ r.num * Nat.pow 2 (-minExponent).toNat) : (nearest r == 0) = false := by
  have hnum : r.num ≠ 0 := by
    intro h0
    rw [h0, Nat.zero_mul] at h
    exact absurd h (Nat.not_le.mpr hden)
  rw [nearest, if_neg hnum]
  dsimp only
  refine ofBits_beq_zero (Nat.min_le_right _ _) (Nat.lt_min.mpr ⟨?_, by decide⟩)
  rcases Int.lt_or_le minExponent (r.floorLog2 - 52) with hlt | hle
  · -- the exponent field is not empty
    have hpos : 0 < (max (r.floorLog2 - 52) minExponent - minExponent).toNat := by omega
    exact Nat.add_pos_left (Nat.mul_pos hpos (by decide)) _
  · -- the significand is at least one unit
    rw [Int.max_eq_right hle]
    have hscaled : r.scale 2 (-minExponent) = ⟨r.num * Nat.pow 2 (-minExponent).toNat, r.den⟩ := by
      have hzero : (- -minExponent).toNat = 0 := rfl
      rw [Ratio.scale, hzero, show Nat.pow 2 0 = 1 from rfl, Nat.mul_one]
    have hround := Ratio.le_round_mul (r.scale 2 (-minExponent)) (by rw [hscaled]; exact hden)
    have hone : 0 < (r.scale 2 (-minExponent)).round := by
      refine Nat.pos_of_ne_zero fun h0 => ?_
      rw [h0, Nat.zero_mul, hscaled] at hround
      dsimp only at hround
      omega
    exact Nat.add_pos_right _ hone

/-- The root of a positive number is not rounded to zero. -/
theorem nearestSqrt_beq_zero {n : Nat} (hn : 0 < n) {e : Int} (he : minExponent ≤ e) :
    (nearestSqrt n e == 0) = false := by
  have hroot : Nat.pow 2 64 ≤ Nat.sqrt (n * Nat.pow 4 64) :=
    Nat.le_sqrt.mpr (Nat.le_mul_of_pos_left _ hn)
  have hexponent : (-(e - 65)).toNat ≤ 65 + (-minExponent).toNat := by omega
  have hden : Nat.pow 2 (-(e - 65)).toNat ≤ Nat.pow 2 65 * Nat.pow 2 (-minExponent).toNat := by
    generalize (-minExponent).toNat = k at hexponent ⊢
    exact Nat.le_trans (Nat.pow_le_pow_right (Nat.zero_lt_succ 1) hexponent)
      (Nat.le_of_eq (Nat.pow_add 2 65 k))
  refine nearest_beq_zero (Nat.mul_pos Nat.one_pos (Nat.two_pow_pos _)) ?_
  rw [Ratio.scale, Nat.one_mul]
  refine Nat.le_trans hden (Nat.mul_le_mul_right _ ?_)
  refine Nat.le_trans ?_ (Nat.le_mul_of_pos_right _ (Nat.two_pow_pos _))
  change Nat.pow 2 64 * 2 ≤ 2 * Nat.sqrt (n * Nat.pow 4 64) + _
  omega

theorem nearestSqrt_zero (e : Int) : nearestSqrt 0 e = 0 := by
  have hroot : Nat.sqrt 0 = 0 := rfl
  simp [nearestSqrt, nearest, Ratio.scale, hroot]

theorem beq_zero_of_isInf {x : Float} (h : x.isInf = true) : (x == 0) = false := by
  rw [Bool.eq_false_iff, ne_eq, beq_zero_iff]
  rintro ⟨s, hs⟩
  rw [show x.isInf = (form x).isInf from rfl, hs] at h
  exact absurd h (by simp [UnpackedFloat.isInf])

theorem beq_zero_of_isNaN {x : Float} (h : x.isNaN = true) : (x == 0) = false := by
  rw [Float.isNaN_eq_decide_eq_nan, decide_eq_true_eq] at h
  rw [h, Float.nan_beq_eq_false]

/-- **Only the origin has distance zero.** -/
theorem hypot_beq_zero (x y : Float) : (hypot x y == 0) = (x == 0 && y == 0) := by
  unfold hypot
  split
  · next h =>
    rw [show (infinity == 0) = false from rfl]
    rcases (Bool.or_eq_true _ _).mp h with hx | hy
    · rw [beq_zero_of_isInf hx, Bool.false_and]
    · rw [beq_zero_of_isInf hy, Bool.and_false]
  · split
    · next h =>
      rw [show (undefined == 0) = false from rfl]
      rcases (Bool.or_eq_true _ _).mp h with hx | hy
      · rw [beq_zero_of_isNaN hx, Bool.false_and]
      · rw [beq_zero_of_isNaN hy, Bool.and_false]
    · dsimp only
      have hle : minExponent ≤ min (decode x).exponent (decode y).exponent :=
        Int.le_min.mpr ⟨minExponent_le x, minExponent_le y⟩
      generalize min (decode x).exponent (decode y).exponent = e at hle ⊢
      by_cases hzero : (x == 0) = true ∧ (y == 0) = true
      · rw [significand_eq_zero_iff.mpr hzero.1, significand_eq_zero_iff.mpr hzero.2, hzero.1,
          hzero.2, Nat.zero_mul, Nat.zero_mul, Nat.zero_mul, nearestSqrt_zero]
        rfl
      · have hfalse : (x == 0 && y == 0) = false :=
          Bool.eq_false_iff.mpr fun h => hzero ((Bool.and_eq_true _ _).mp h)
        rw [hfalse]
        refine nearestSqrt_beq_zero (Nat.pos_of_ne_zero fun hsum => hzero ?_) hle
        -- a scaled significand is zero only if the significand is
        have hscaled : ∀ n k : Nat, n * Nat.pow 2 k = 0 → n = 0 := fun n k h =>
          (Nat.mul_eq_zero.mp h).resolve_right (Nat.ne_of_gt (Nat.two_pow_pos k))
        obtain ⟨hp, hq⟩ := mul_self_add_mul_self_eq_zero.mp hsum
        exact ⟨significand_eq_zero_iff.mp (hscaled _ _ hp),
          significand_eq_zero_iff.mp (hscaled _ _ hq)⟩

end Argand.Binary64
