import Argand.ComplexNumber.Print
import Argand.Proofs.NearestDoubles

/-!
# Decimals as they are shown

A part of a printed number is a row of digits, perhaps with a minus sign in front and a point
inside.  What it denotes is the part rounded to some number of places.

## Main definitions

* `Decimal.Shown` — a decimal as it is written: its sign, and its digits before and after the
  point.
* `Shown.text s`, `Shown.value s` — its characters, and the rational number that it denotes.
* `Shown.Tidy s` — no zero is shown that could be left out, and no zero has a sign.
* `ComplexNumber.unitsOf places x` — the size of a double in units of the last of some places.
* `ComplexNumber.shownPart places x` — the decimal that a double is shown as.

## Main results

* `Decimal.tidy_shown`, `Decimal.size_shown` — units are shown without superfluous zeros, and
  not changed.
* `ComplexNumber.partText_eq` — **a part of a printed number is the decimal that it is shown as.**
* `ComplexNumber.unitsOf_eq` — **a double that is as near to the units has the same units.**
-/

namespace Argand.Decimal

open Text

/-! ### Digits -/

theorem toNat_of_isDigit {c : Char} (h : c.isDigit = true) : 48 ≤ c.toNat ∧ c.toNat ≤ 57 := by
  have hval : c.val.toNat = c.toNat := rfl
  simp only [Char.isDigit, Bool.and_eq_true, decide_eq_true_eq, ge_iff_le, UInt32.le_iff_toNat_le,
    hval] at h
  exact h

/-- The digits of ASCII come first among all digits. -/
theorem digitValue?_of_isDigit {c : Char} (h : c.isDigit = true) :
    digitValue? c = some (c.toNat - 48) := by
  have hrange := toNat_of_isDigit h
  have hfirst : digitZeros.find? (fun start => start ≤ c.toNat && c.toNat ≤ start + 9) =
      some 48 := List.find?_cons_of_pos (by simp [hrange])
  rw [digitValue?, hfirst]
  rfl

theorem isDigit_of_charIsDigit {c : Char} (h : c.isDigit = true) : Text.isDigit c = true := by
  rw [Text.isDigit, digitValue?_of_isDigit h]
  rfl

/-- Digits of ASCII denote what they denote for the library. -/
theorem ofDigits_eq {ds : List Char} (h : ∀ d ∈ ds, d.isDigit = true) :
    ofDigits ds = Nat.ofDigitChars 10 ds 0 := by
  rw [ofDigits, Nat.ofDigitChars]
  refine List.foldl_ext _ _ _ fun n d hd => ?_
  rw [digitValue, digitValue?_of_isDigit (h d hd)]
  rfl

/-- Zeros at the end move the digits before them. -/
theorem ofDigits_append_zeros {ds : List Char} (h : ∀ d ∈ ds, d.isDigit = true) (k : Nat) :
    ofDigits (ds ++ List.replicate k '0') = ofDigits ds * 10 ^ k := by
  have hall : ∀ d ∈ ds ++ List.replicate k '0', d.isDigit = true := by
    intro d hd
    rcases List.mem_append.mp hd with hd | hd
    · exact h d hd
    · rw [List.eq_of_mem_replicate hd]
      rfl
  rw [ofDigits_eq hall, ofDigits_eq h, Nat.ofDigitChars_append, Nat.ofDigitChars_replicate_zero,
    Nat.mul_comm]

theorem forall_mem_padStart {width : Nat} {ds : List Char} (h : ∀ d ∈ ds, d.isDigit = true) :
    ∀ d ∈ padStart width ds, d.isDigit = true := by
  intro d hd
  rcases List.mem_append.mp hd with hd | hd
  · rw [List.eq_of_mem_replicate hd]
    rfl
  · exact h d hd

theorem length_padStart (width : Nat) (ds : List Char) :
    (padStart width ds).length = max width ds.length := by
  rw [padStart, List.length_append, List.length_replicate]
  omega

/-- Zeros at the start do not count. -/
theorem ofDigits_padStart (width : Nat) {ds : List Char} (h : ∀ d ∈ ds, d.isDigit = true) :
    ofDigits (padStart width ds) = ofDigits ds := by
  rw [ofDigits_eq (forall_mem_padStart h), ofDigits_eq h, padStart, Nat.ofDigitChars_append,
    Nat.ofDigitChars_replicate_zero, Nat.mul_zero]

theorem isDigit_of_mem_toDigits {n : Nat} : ∀ d ∈ Nat.toDigits 10 n, d.isDigit = true :=
  fun _ hd => Nat.isDigit_of_mem_toDigits (by decide) (by decide) hd

theorem ofDigits_toDigits (n : Nat) : ofDigits (Nat.toDigits 10 n) = n := by
  rw [ofDigits_eq isDigit_of_mem_toDigits, Nat.ofDigitChars_ten_toDigits]

/-! ### Zeros at the end -/

theorem dropTrailingZeros_eq (ds : List Char) :
    dropTrailingZeros ds = ds.rdropWhile (· == '0') := rfl

/-- The zeros that are left out stood at the end. -/
theorem exists_dropTrailingZeros_append (ds : List Char) :
    ∃ k, dropTrailingZeros ds ++ List.replicate k '0' = ds := by
  refine ⟨(ds.rtakeWhile (· == '0')).length, ?_⟩
  have hzeros : ds.rtakeWhile (· == '0') =
      List.replicate (ds.rtakeWhile (· == '0')).length '0' := by
    rw [List.eq_replicate_iff]
    exact ⟨rfl, fun d hd => by simpa using List.mem_rtakeWhile_imp hd⟩
  rw [← hzeros]
  exact List.rdropWhile_append_rtakeWhile

theorem getLast?_dropTrailingZeros (ds : List Char) :
    (dropTrailingZeros ds).getLast? ≠ some '0' := by
  intro h
  have hnot := List.head?_dropWhile_not (· == '0') ds.reverse
  rw [dropTrailingZeros, List.getLast?_reverse] at h
  rw [h] at hnot
  cases hnot

/-- What stands before other characters than zeros is kept. -/
theorem dropTrailingZeros_append_cons (cs ds : List Char) {c : Char} (hc : c ≠ '0') :
    dropTrailingZeros (cs ++ c :: ds) = cs ++ c :: dropTrailingZeros ds := by
  have hkept : (c :: cs.reverse).dropWhile (· == '0') = c :: cs.reverse :=
    List.dropWhile_cons_of_neg (by simp [hc])
  rw [dropTrailingZeros, dropTrailingZeros, List.reverse_append, List.reverse_cons,
    List.append_assoc, List.singleton_append, List.dropWhile_append, hkept]
  split
  · next hempty =>
    rw [List.isEmpty_iff.mp hempty]
    simp
  · simp

/-! ### Decimals -/

/-- A decimal as it is written: its sign, and its digits before and after the point. -/
structure Shown where
  negative : Bool
  whole : List Char
  fraction : List Char

namespace Shown

/-- The characters without the sign.  A point is written only in front of digits. -/
def digits (s : Shown) : List Char := s.whole ++ fractionText s.fraction

/-- The characters. -/
def text (s : Shown) : List Char := signText s.negative ++ s.digits

/-- The rational number without the sign. -/
def size (s : Shown) : ℚ :=
  ofDigits (s.whole ++ s.fraction) * (10 : ℚ) ^ (-(s.fraction.length : Int))

/-- The rational number that a decimal denotes. -/
def value (s : Shown) : ℚ := if s.negative then -s.size else s.size

/-- There are digits before the point, but no zeros that could be left out behind it, and a zero
has no sign. -/
structure Tidy (s : Shown) : Prop where
  whole : s.whole ≠ []
  digits : ∀ d ∈ s.whole ++ s.fraction, d.isDigit = true
  fraction : s.fraction.getLast? ≠ some '0'
  sign : s.negative = true → s.value ≠ 0

/-- A lone zero denotes zero. -/
theorem Tidy.size_eq_zero {s : Shown} (h : s.Tidy) (hdigits : s.digits = ['0']) : s.size = 0 := by
  obtain ⟨negative, whole, fraction⟩ := s
  obtain ⟨d, ds, rfl⟩ := List.exists_cons_of_ne_nil h.whole
  obtain ⟨rfl, htail⟩ : d = '0' ∧ ds ++ fractionText fraction = [] := List.cons.inj hdigits
  obtain ⟨rfl, hfraction⟩ := List.append_eq_nil_iff.mp htail
  obtain rfl : fraction = [] := by
    cases fraction with
    | nil => rfl
    | cons e es => cases hfraction
  have hzero : ofDigits ['0'] = 0 := by decide
  simp [size, hzero]

/-- What is tidy is no negative zero. -/
theorem Tidy.text_ne {s : Shown} (h : s.Tidy) : s.text ≠ ['-', '0'] := by
  intro htext
  cases hsign : s.negative with
  | false =>
    obtain ⟨d, ds, hwhole⟩ := List.exists_cons_of_ne_nil h.whole
    rw [text, hsign, Shown.digits, hwhole] at htext
    have hd : d = '-' := (List.cons.inj htext).1
    have hdigit := h.digits d (by simp [hwhole])
    rw [hd] at hdigit
    exact absurd hdigit (by decide)
  | true =>
    rw [text, hsign] at htext
    refine h.sign hsign ?_
    rw [value, hsign, h.size_eq_zero (List.cons.inj htext).2]
    rfl

end Shown

/-- A number of units of the last of some places. -/
def shown (places : Nat) (negative : Bool) (units : Nat) : Shown :=
  let row := padStart (places + 1) (Nat.toDigits 10 units)
  ⟨negative && units != 0, row.take (row.length - places),
    dropTrailingZeros (row.drop (row.length - places))⟩

section Row

variable (places : Nat) (negative : Bool) (units : Nat)

theorem length_row : places < (padStart (places + 1) (Nat.toDigits 10 units)).length := by
  rw [length_padStart]
  omega

theorem isDigit_of_mem_row :
    ∀ d ∈ padStart (places + 1) (Nat.toDigits 10 units), d.isDigit = true :=
  forall_mem_padStart isDigit_of_mem_toDigits

/-- The digits that are left, and the zeros that are not. -/
theorem exists_shown_append : ∃ k, (shown places negative units).fraction.length + k = places ∧
    (shown places negative units).whole ++ (shown places negative units).fraction ++
      List.replicate k '0' = padStart (places + 1) (Nat.toDigits 10 units) := by
  have hlength := length_row places units
  have hrow := List.take_append_drop
    ((padStart (places + 1) (Nat.toDigits 10 units)).length - places)
    (padStart (places + 1) (Nat.toDigits 10 units))
  obtain ⟨k, hk⟩ := exists_dropTrailingZeros_append
    ((padStart (places + 1) (Nat.toDigits 10 units)).drop
      ((padStart (places + 1) (Nat.toDigits 10 units)).length - places))
  refine ⟨k, ?_, ?_⟩
  · have hwidth := congrArg List.length hk
    rw [List.length_append, List.length_replicate, List.length_drop] at hwidth
    change (dropTrailingZeros _).length + k = places
    omega
  · rw [List.append_assoc]
    change _ ++ (dropTrailingZeros _ ++ _) = _
    rw [hk]
    exact hrow

theorem isDigit_of_mem_shown :
    ∀ d ∈ (shown places negative units).whole ++ (shown places negative units).fraction,
      d.isDigit = true := by
  obtain ⟨k, -, hrow⟩ := exists_shown_append places negative units
  intro d hd
  exact isDigit_of_mem_row places units d (hrow ▸ List.mem_append_left _ hd)

/-- **The digits denote the units.** -/
theorem size_shown : (shown places negative units).size = units * (10 : ℚ) ^ (-(places : Int)) := by
  obtain ⟨k, hlength, hrow⟩ := exists_shown_append places negative units
  have hdigits := ofDigits_append_zeros (isDigit_of_mem_shown places negative units) k
  rw [hrow, ofDigits_padStart _ isDigit_of_mem_toDigits, ofDigits_toDigits] at hdigits
  generalize shown places negative units = s at hlength hdigits
  rw [Shown.size, ← hlength, hdigits, Nat.cast_add, neg_add, zpow_add₀ (by norm_num), zpow_neg,
    zpow_neg, zpow_natCast, zpow_natCast]
  push_cast
  field_simp

/-- Nothing is left of the zeros behind the point, and one of those before it. -/
theorem shown_zero : shown places negative 0 = ⟨false, ['0'], []⟩ := by
  have hrow : padStart (places + 1) (Nat.toDigits 10 0) = List.replicate (places + 1) '0' := by
    rw [Nat.toDigits_zero, padStart, List.length_singleton, Nat.add_sub_cancel,
      List.replicate_succ']
  have hzeros : dropTrailingZeros (List.replicate places '0') = [] := by
    rw [dropTrailingZeros_eq, List.rdropWhile_eq_nil_iff]
    intro d hd
    rw [List.eq_of_mem_replicate hd]
    rfl
  simp only [shown, hrow, List.length_replicate, Nat.add_sub_cancel_left, List.take_replicate,
    List.drop_replicate, Nat.add_sub_cancel, hzeros]
  simp

/-- **No zero is shown that could be left out**, and none has a sign. -/
theorem tidy_shown : (shown places negative units).Tidy where
  whole := by
    have hlength := length_row places units
    intro hnil
    have hwidth := congrArg List.length hnil
    change (List.take _ _).length = 0 at hwidth
    rw [List.length_take] at hwidth
    omega
  digits := isDigit_of_mem_shown places negative units
  fraction := getLast?_dropTrailingZeros _
  sign h := by
    have hunits : units ≠ 0 := by
      rw [shown, Bool.and_eq_true, bne_iff_ne] at h
      exact h.2
    rw [Shown.value, h, if_pos rfl, size_shown, neg_ne_zero]
    exact mul_ne_zero (Nat.cast_ne_zero.mpr hunits) (zpow_ne_zero _ (by norm_num))

end Row

end Argand.Decimal

namespace Argand

open Decimal

namespace ComplexNumber

/-! ### Parts of printed numbers -/

/-- The size of a double in units of the last of some places. -/
def unitsOf (places : Nat) (x : Float) : Nat :=
  ((Binary64.decode x).magnitude.scale 10 places).round

theorem notFiniteText?_eq_none {x : Float} (hx : x.isFinite = true) :
    notFiniteText? x = none := by
  have hinf : x.isInf = (Binary64.form x).isInf := rfl
  have hnan : x.isNaN = (Binary64.form x).isNaN := rfl
  rw [notFiniteText?, hinf, hnan]
  rcases Binary64.form_cases hx with ⟨s, hs⟩ | ⟨s, m, e, hm, hs⟩
  · rw [hs]
    rfl
  · rw [hs]
    rfl

/-- No digit is a point. -/
theorem not_mem_of_isDigit {ds : List Char} (h : ∀ d ∈ ds, d.isDigit = true) : '.' ∉ ds := by
  intro hmem
  exact absurd (h '.' hmem) (by decide)

/-- Only the zeros behind the point are left out, and a point in front of nothing. -/
theorem dropTrailingPlaces_eq {whole fraction : List Char} (hwhole : '.' ∉ whole)
    (hfraction : '.' ∉ fraction) :
    dropTrailingPlaces (whole ++ fractionText fraction) =
      whole ++ fractionText (dropTrailingZeros fraction) := by
  cases fraction with
  | nil =>
    have hnone : whole.contains '.' = false := by simpa using hwhole
    change dropTrailingPlaces (whole ++ []) = whole ++ []
    rw [List.append_nil, dropTrailingPlaces, hnone]
    rfl
  | cons d ds =>
    have hsome : (whole ++ '.' :: d :: ds).contains '.' = true := by simp
    obtain ⟨k, hk⟩ := exists_dropTrailingZeros_append (d :: ds)
    change dropTrailingPlaces (whole ++ '.' :: d :: ds) = _
    rw [dropTrailingPlaces, hsome, if_pos rfl, dropTrailingZeros_append_cons _ _ (by decide)]
    cases hkept : dropTrailingZeros (d :: ds) with
    | nil => simp [fractionText]
    | cons e es =>
      have hlast : (whole ++ '.' :: e :: es).getLast? ≠ some '.' := by
        rw [List.getLast?_append_cons, List.getLast?_cons_cons]
        intro hpoint
        refine hfraction (hk ▸ List.mem_append_left _ ?_)
        exact hkept ▸ List.mem_of_getLast? hpoint
      dsimp only
      rw [if_neg hlast]
      rfl

/-- The decimal that a double is shown as. -/
def shownPart (places : Nat) (x : Float) : Shown :=
  shown places (Binary64.decode x).negative (unitsOf places x)

theorem tidy_shownPart (places : Nat) (x : Float) : (shownPart places x).Tidy := tidy_shown _ _ _

theorem size_shownPart (places : Nat) (x : Float) :
    (shownPart places x).size = unitsOf places x * (10 : ℚ) ^ (-(places : Int)) :=
  size_shown _ _ _

theorem shownPart_of_unitsOf_eq_zero {places : Nat} {x : Float} (hunits : unitsOf places x = 0) :
    shownPart places x = ⟨false, ['0'], []⟩ := by
  rw [shownPart, hunits, shown_zero]

theorem negative_shownPart_of_unitsOf_ne_zero {places : Nat} {x : Float}
    (hunits : unitsOf places x ≠ 0) :
    (shownPart places x).negative = (Binary64.decode x).negative := by
  rw [shownPart, shown, bne_iff_ne.mpr hunits, Bool.and_true]

/-- Without the zeros at its end, a row of places is the decimal behind a sign. -/
theorem dropTrailingPlaces_fixed (places : Nat) (x : Float) : dropTrailingPlaces (fixed places x) =
    signText (Binary64.decode x).negative ++ (shownPart places x).digits := by
  let row := padStart (places + 1) (Nat.toDigits 10 (unitsOf places x))
  have hdigits : ∀ d ∈ row, d.isDigit = true := isDigit_of_mem_row places _
  have hwhole : '.' ∉ signText (Binary64.decode x).negative ++ row.take (row.length - places) := by
    rw [List.mem_append, not_or]
    refine ⟨?_, not_mem_of_isDigit fun d hd => hdigits d (List.mem_of_mem_take hd)⟩
    cases (Binary64.decode x).negative <;> decide
  have hfraction : '.' ∉ row.drop (row.length - places) :=
    not_mem_of_isDigit fun d hd => hdigits d (List.mem_of_mem_drop hd)
  have hfixed : fixed places x =
    (signText (Binary64.decode x).negative ++ row.take (row.length - places)) ++
      fractionText (row.drop (row.length - places)) := rfl
  rw [hfixed, dropTrailingPlaces_eq hwhole hfraction, List.append_assoc]
  rfl

/-- **A part of a printed number is the decimal that it is shown as.** -/
theorem partText_eq (places : Nat) {x : Float} (hx : x.isFinite = true) :
    partText places x = (shownPart places x).text := by
  rw [partText, notFiniteText?_eq_none hx]
  dsimp only
  rw [dropTrailingPlaces_fixed]
  by_cases hunits : unitsOf places x = 0
  · -- a zero loses its sign
    rw [shownPart_of_unitsOf_eq_zero hunits]
    cases (Binary64.decode x).negative <;> rfl
  · rw [← negative_shownPart_of_unitsOf_ne_zero hunits]
    exact if_neg (tidy_shownPart places x).text_ne

/-! ### Rounding to places -/

open Binary64 (decode toRat)

section Rounding

variable (places : Nat) (x : Float)

theorem den_magnitude_pos : 0 < (decode x).magnitude.den :=
  Ratio.den_scale_pos 2 two_pos _ Nat.one_pos

theorem toRat_magnitude_decode : (decode x).magnitude.toRat = |toRat x| := by
  rw [Binary64.abs_toRat, Binary64.Parts.toRat_magnitude]

theorem toRat_scale_magnitude :
    ((decode x).magnitude.scale 10 places).toRat = |toRat x| * 10 ^ places := by
  rw [Ratio.toRat_scale 10 (by decide), toRat_magnitude_decode, zpow_natCast]
  norm_cast

/-- The units are at most half a unit away from the double. -/
theorem abs_unitsOf_sub_le : |(unitsOf places x : ℚ) - |toRat x| * 10 ^ places| ≤ 1 / 2 := by
  rw [← toRat_scale_magnitude]
  exact Ratio.abs_round_sub_le (Ratio.den_scale_pos 10 (by decide) _ (den_magnitude_pos x))

/-- Past the last place of a double its units are exact. -/
theorem unitsOf_allPlaces : (unitsOf allPlaces x : ℚ) = |toRat x| * 10 ^ allPlaces := by
  obtain ⟨m, hm⟩ := Binary64.exists_toRat_eq (Binary64.minExponent_le x)
  have hwhole : |toRat x| * 10 ^ allPlaces = (|m| * 5 ^ allPlaces : Int) := by
    have hexponent : Binary64.minExponent = -(allPlaces : Int) := rfl
    have hten : (10 : ℚ) ^ allPlaces = 2 ^ allPlaces * 5 ^ allPlaces := by
      rw [← mul_pow]
      norm_num
    rw [hm, hexponent, abs_mul, abs_of_pos (zpow_pos (two_pos : (0 : ℚ) < 2) _), zpow_neg,
      zpow_natCast, hten, mul_assoc, inv_mul_cancel_left₀ (pow_ne_zero _ two_ne_zero)]
    push_cast
    rfl
  have hnearest := Ratio.abs_round_sub_le_abs_sub
    (Ratio.den_scale_pos 10 (by decide) allPlaces (den_magnitude_pos x)) (|m| * 5 ^ allPlaces)
  rw [toRat_scale_magnitude, ← hwhole, sub_self, abs_zero] at hnearest
  exact sub_eq_zero.mp (abs_eq_zero.mp (le_antisymm hnearest (abs_nonneg _)))

/-- A double that is as near to the units as the one they were taken from has the same units. -/
theorem unitsOf_eq {x y : Float}
    (h : |(unitsOf places x : ℚ) - |toRat y| * 10 ^ places| ≤
      |(unitsOf places x : ℚ) - |toRat x| * 10 ^ places|) :
    unitsOf places y = unitsOf places x := by
  have hx := abs_unitsOf_sub_le places x
  have hdx := Ratio.den_scale_pos 10 (by decide) places (den_magnitude_pos x)
  have hdy := Ratio.den_scale_pos 10 (by decide) places (den_magnitude_pos y)
  refine Ratio.round_eq hdy ?_ fun htie => ?_
  · rw [toRat_scale_magnitude]
    exact h.trans hx
  · -- if one is in the middle between two units then so is the other
    rw [toRat_scale_magnitude] at htie
    refine Ratio.even_round hdx ?_
    rw [toRat_scale_magnitude]
    exact le_antisymm hx (htie ▸ h)

end Rounding

end ComplexNumber

end Argand
