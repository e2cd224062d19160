import Argand.Proofs.LiteralGrammar
import Argand.Proofs.ShownDecimals

/-!
# Printed numbers are read back

A printed number is a literal of two terms.  Reading it gives the doubles that are nearest to
the decimals that are shown, and these are shown as the same decimals again: a double that is as
near to a decimal as the one that was printed is rounded to it too.

## Main definitions

* `Decimal.numberText re im` — two decimals as the parts of a printed number.
* `Decimal.Shown.double s` — the double that a decimal is read as.

## Main results

* `Decimal.parseNumber_numberText` — **a printed number is a literal of two terms.**
* `ComplexNumber.isNearest_double`, `ComplexNumber.shownPart_double` — what a part is read as is
  nearest to the decimal, and is shown as the same decimal.
* `ComplexNumber.print_reads_back` — **what is printed is read back.**
-/

namespace Argand.Decimal

open Text Numeral
open Literal (Term Written Row Tightened pointForComma)
open Binary64 (IsNearest signed)

/-! ### Decimals as numerals -/

namespace Shown

variable {s : Shown}

/-- The parts of the numeral without the sign. -/
def parts (s : Shown) : Parts := ⟨s.whole, fractionText s.fraction, []⟩

theorem text_parts (s : Shown) : s.parts.text = s.digits := List.append_nil _

theorem drop_fractionText (ds : List Char) : (fractionText ds).drop 1 = ds := by
  cases ds <;> rfl

theorem Tidy.valid_parts (h : s.Tidy) : s.parts.Valid where
  whole c hc := isDigit_of_charIsDigit (h.digits c (List.mem_append_left _ hc))
  point := by
    rw [parts]
    cases hfraction : s.fraction with
    | nil => exact .inl rfl
    | cons d ds =>
      refine .inr ⟨'.', d :: ds, rfl, rfl, fun e he => ?_⟩
      exact isDigit_of_charIsDigit (h.digits e (List.mem_append_right _ (hfraction ▸ he)))
  exponent := .inl rfl

theorem Tidy.isNumeral_parts (h : s.Tidy) : s.parts.isNumeral = true := by
  rw [Parts.isNumeral, parts, List.isEmpty_eq_false_iff.mpr h.whole]
  rfl

theorem Tidy.digits_ne_nil (h : s.Tidy) : s.digits ≠ [] :=
  List.append_ne_nil_of_left_ne_nil h.whole _

theorem Tidy.value_digits (h : s.Tidy) : Numeral.value s.digits =
    nearestDecimal (ofDigits (s.whole ++ s.fraction)) (-(s.fraction.length : Int)) := by
  have hvalue : s.parts.value =
    nearestDecimal (ofDigits (s.whole ++ (fractionText s.fraction).drop 1))
      (0 - ((fractionText s.fraction).drop 1).length) := rfl
  rw [← text_parts, value_text h.valid_parts, hvalue, drop_fractionText, zero_sub]

/-- The digits are read as the nearest double. -/
theorem Tidy.isNearest_size (h : s.Tidy) (hle : s.size ≤ Binary64.maxFinite) :
    IsNearest (Numeral.value s.digits) s.size := by
  rw [h.value_digits]
  exact Binary64.isNearest_nearestDecimal hle

/-- The characters are those of a numeral, and none is a comma. -/
theorem Tidy.of_mem_digits (h : s.Tidy) {c : Char} (hc : c ∈ s.digits) :
    isSign c = false ∧ isBlank c = false ∧ pointForComma c = c := by
  have hcases : c.isDigit = true ∨ c = '.' := by
    rcases List.mem_append.mp hc with hc | hc
    · exact .inl (h.digits c (List.mem_append_left _ hc))
    · cases hfraction : s.fraction with
      | nil =>
        rw [hfraction] at hc
        cases hc
      | cons d ds =>
        rw [hfraction] at hc
        rcases List.mem_cons.mp hc with rfl | hc
        · exact .inr rfl
        · exact .inl (h.digits c (List.mem_append_right _ (hfraction ▸ hc)))
  rcases hcases with hdigit | rfl
  · have hcomma : c ≠ ',' := by
      rintro rfl
      exact absurd hdigit (by decide)
    have hd := isDigit_of_charIsDigit hdigit
    exact ⟨isSign_of_isDigit hd, isBlank_of_isDigit hd, by simp [pointForComma, hcomma]⟩
  · decide

/-- The sign that stands between the parts of a printed number. -/
def sign (s : Shown) : Char := if s.negative then '-' else '+'

theorem isSign_sign (s : Shown) : isSign s.sign = true := by
  rw [sign]
  split <;> rfl

/-- The double that a decimal is read as, added to zero. -/
def double (s : Shown) : Float := 0 + signed s.negative (Numeral.value s.digits)

end Shown

/-! ### Two decimals as a literal -/

/-- Two decimals as the parts of a printed number. -/
def numberText (re im : Shown) : List Char :=
  re.text ++ [' ', im.sign, ' '] ++ im.digits ++ ['i']

/-- The terms of a printed number. -/
def numberTerms (re im : Shown) : List Term :=
  [⟨signText re.negative, re.digits, []⟩, ⟨[im.sign], im.digits, ['i']⟩]

/-- A blank at the end is cut off. -/
theorem trimEnd_append_blank {cs : List Char} (hcs : ∀ c ∈ cs, isBlank c = false) :
    trimEnd (cs ++ [' ']) = cs := by
  change (cs ++ [' ']).rdropWhile isBlank = cs
  rw [List.rdropWhile_concat_pos _ _ _ rfl, List.rdropWhile_eq_self_iff]
  intro hne
  rw [hcs _ (List.getLast_mem hne)]
  exact Bool.false_ne_true

section NumberText

variable {re im : Shown} (hre : re.Tidy) (him : im.Tidy)

include hre him

/-- The blanks around the sign between the parts are left out. -/
theorem tightened_digits : Tightened (re.digits ++ [' ', im.sign, ' '] ++ im.digits ++ ['i'])
    (re.digits ++ im.sign :: (im.digits ++ ['i'])) := by
  have hunsigned {s : Shown} (hs : s.Tidy) {d : Char} (hd : isSign d = false) :
      ∀ c ∈ s.digits ++ [d], isSign c = false := by
    intro c hc
    rcases List.mem_append.mp hc with hc | hc
    · exact (hs.of_mem_digits hc).1
    · rwa [List.mem_singleton.mp hc]
  have hafter : trimStart (' ' :: (im.digits ++ ['i'])) = im.digits ++ ['i'] := by
    rw [trimStart_cons_of_blank rfl]
    refine trimStart_eq_self fun c hc => ?_
    rcases List.mem_append.mp (List.mem_of_head? hc) with hc | hc
    · exact (him.of_mem_digits hc).2.1
    · rw [List.mem_singleton.mp hc]
      rfl
  have hend : trimEnd (re.digits ++ [' ']) = re.digits :=
    trimEnd_append_blank fun c hc => (hre.of_mem_digits hc).2.1
  have hrest : Tightened (trimStart (' ' :: (im.digits ++ ['i']))) (im.digits ++ ['i']) := by
    rw [hafter]
    exact .unsigned (hunsigned him rfl)
  have hcut : re.digits ++ [' ', im.sign, ' '] ++ im.digits ++ ['i'] =
      (re.digits ++ [' ']) ++ im.sign :: ' ' :: (im.digits ++ ['i']) := by simp
  have hbefore : ∀ c ∈ re.digits ++ [' '], isSign c = false := hunsigned hre rfl
  have htightened := Tightened.sign hbefore im.isSign_sign hrest
  rwa [hend, ← hcut] at htightened

/-- The normal form of a printed number is its text without blanks. -/
theorem tightened_numberText : Tightened (trim (numberText re im))
    (re.text ++ im.sign :: (im.digits ++ ['i'])) := by
  obtain ⟨d, ds, hdigits⟩ := List.exists_cons_of_ne_nil hre.digits_ne_nil
  obtain ⟨-, hblank, -⟩ := hre.of_mem_digits (hdigits ▸ List.mem_cons_self .. : d ∈ re.digits)
  have htightened := tightened_digits hre him
  rw [numberText, Shown.text]
  cases re.negative with
  | false =>
    have htrim : trim (re.digits ++ [' ', im.sign, ' '] ++ im.digits ++ ['i']) =
        re.digits ++ [' ', im.sign, ' '] ++ im.digits ++ ['i'] := by
      rw [hdigits]
      exact trim_eq_self hblank rfl
    change Tightened (trim (re.digits ++ _ ++ _ ++ _)) (re.digits ++ _)
    rw [htrim]
    exact htightened
  | true =>
    have htrim : trim ('-' :: (re.digits ++ [' ', im.sign, ' '] ++ im.digits ++ ['i'])) =
        '-' :: (re.digits ++ [' ', im.sign, ' '] ++ im.digits ++ ['i']) :=
      trim_eq_self rfl rfl
    have hstart : trimStart (re.digits ++ [' ', im.sign, ' '] ++ im.digits ++ ['i']) =
        re.digits ++ [' ', im.sign, ' '] ++ im.digits ++ ['i'] := by
      rw [hdigits]
      exact trimStart_cons_of_not_blank hblank _
    have hbefore : ∀ c ∈ ([] : List Char), isSign c = false := List.forall_mem_nil _
    change Tightened (trim ('-' :: (re.digits ++ _ ++ _ ++ _))) ('-' :: (re.digits ++ _))
    rw [htrim]
    exact .sign hbefore rfl (hstart.symm ▸ htightened)

/-- There are no commas in it. -/
theorem map_pointForComma : (re.text ++ im.sign :: (im.digits ++ ['i'])).map pointForComma =
    re.text ++ im.sign :: (im.digits ++ ['i']) := by
  have hsign : pointForComma im.sign = im.sign := by
    rw [Shown.sign]
    split <;> rfl
  have htext : (signText re.negative).map pointForComma = signText re.negative := by
    cases re.negative <;> rfl
  have hdigits {s : Shown} (hs : s.Tidy) : s.digits.map pointForComma = s.digits :=
    (List.map_congr_left fun _ hc => (hs.of_mem_digits hc).2.2).trans (List.map_id _)
  rw [Shown.text, List.map_append, List.map_append, List.map_cons, List.map_append, htext, hsign,
    hdigits hre, hdigits him]
  rfl

/-- The terms of a printed number are a row. -/
theorem row_numberTerms : Row false ⟨signText re.negative, re.digits, []⟩
    [⟨[im.sign], im.digits, ['i']⟩] where
  valid := by
    refine ⟨?_, .inr ⟨re.parts, hre.valid_parts, hre.isNumeral_parts, re.text_parts⟩, .inl rfl,
      fun hnil => absurd hnil hre.digits_ne_nil⟩
    cases re.negative with
    | false => exact .inl rfl
    | true => exact .inr ⟨'-', rfl, rfl⟩
  sign := nofun
  more := by
    refine List.forall_mem_singleton.mpr ⟨⟨.inr ⟨_, rfl, im.isSign_sign⟩,
      .inr ⟨im.parts, him.valid_parts, him.isNumeral_parts, im.text_parts⟩, .inr ⟨'i', rfl, rfl⟩,
      fun _ => List.cons_ne_nil _ _⟩, List.cons_ne_nil _ _⟩

theorem written_numberText : Written (numberText re im) (numberTerms re im) := by
  refine ⟨_, tightened_numberText hre him, ?_, _, _, rfl, row_numberTerms hre him⟩
  rw [map_pointForComma hre him]
  simp [numberTerms, Term.text, Shown.text]

/-- **A printed number is a literal of two terms**, one for each part. -/
theorem parseNumber_numberText (line : Int) : isNumber (numberText re im) = true ∧
    parseNumber (numberText re im) line = .ok ⟨re.double, im.double⟩ := by
  have hvalue : Literal.value (numberTerms re im) = ⟨re.double, im.double⟩ := by
    have hre' : (signText re.negative == ['-']) = re.negative := by
      cases re.negative <;> rfl
    have him' : ([im.sign] == ['-']) = im.negative := by
      rw [Shown.sign]
      cases im.negative <;> rfl
    simp [Literal.value, Literal.sum, numberTerms, Term.isImaginary, Term.value,
      hre.digits_ne_nil, him.digits_ne_nil, hre', him', Shown.double]
  rw [← hvalue]
  exact Literal.parseNumber_of_terms
    (Literal.terms?_normalize_eq_some_iff.mpr (written_numberText hre him)) line

end NumberText

end Argand.Decimal

namespace Argand.ComplexNumber

open Decimal
open Binary64 (IsNearest decode maxFinite signed toRat)

/-! ### Printing -/

/-- A zero has no units. -/
theorem unitsOf_eq_zero (places : Nat) {x : Float} (hzero : (decode x).significand = 0) :
    unitsOf places x = 0 := by
  have hhalf := abs_unitsOf_sub_le places x
  rw [Binary64.abs_toRat, hzero, Nat.cast_zero, zero_mul, zero_mul, sub_zero, Nat.abs_cast]
    at hhalf
  by_contra hunits
  have hone : (1 : ℚ) ≤ unitsOf places x := by exact_mod_cast Nat.one_le_iff_ne_zero.mpr hunits
  linarith

section Part

variable (places : Nat) {x : Float} (hx : x.isFinite = true)

include hx

theorem unitsOf_abs : unitsOf places x.abs = unitsOf places x := by
  rw [unitsOf, Binary64.decode_abs hx]
  rfl

/-- The absolute value is shown without the sign. -/
theorem partText_abs : partText places x.abs = (shownPart places x).digits := by
  rw [partText_eq places ((Binary64.isFinite_abs x).trans hx), shownPart, unitsOf_abs places hx,
    Binary64.decode_abs hx]
  rfl

/-- The sign of a part is left out if nothing but a zero is left of it. -/
theorem negative_shownPart : (shownPart places x).negative = true ↔
    x < 0 ∧ (shownPart places x).digits ≠ ['0'] := by
  -- a lone zero is shown if there are no units, and only then
  have hdigits : (shownPart places x).digits ≠ ['0'] ↔ unitsOf places x ≠ 0 := by
    refine not_congr ⟨?_, ?_⟩
    · intro hdigits
      have hsize := (tidy_shownPart places x).size_eq_zero hdigits
      rw [size_shownPart, mul_eq_zero] at hsize
      exact Nat.cast_eq_zero.mp (hsize.resolve_right (zpow_ne_zero _ (by norm_num)))
    · intro hunits
      rw [shownPart_of_unitsOf_eq_zero hunits]
      rfl
  have hsignificand (hunits : unitsOf places x ≠ 0) : (decode x).significand ≠ 0 :=
    fun hzero => hunits (unitsOf_eq_zero places hzero)
  rw [Binary64.lt_zero_iff_decode hx, hdigits, shownPart, shown, Bool.and_eq_true,
    bne_iff_ne]
  constructor
  · rintro ⟨hneg, hunits⟩
    exact ⟨⟨hneg, hsignificand hunits⟩, hunits⟩
  · rintro ⟨⟨hneg, -⟩, hunits⟩
    exact ⟨hneg, hunits⟩

end Part

/-- **A printed number shows a decimal for each of its parts.** -/
theorem printChars_eq (places : Nat) {z : ComplexNumber Float} (hre : z.re.isFinite = true)
    (him : z.im.isFinite = true) :
    printChars places z = numberText (shownPart places z.re) (shownPart places z.im) := by
  have hsign : (if z.im < 0 && (shownPart places z.im).digits ≠ ['0'] then '-' else '+') =
      (shownPart places z.im).sign := by
    have hiff := negative_shownPart places him
    rw [Shown.sign]
    cases hnegative : (shownPart places z.im).negative with
    | true => simp [hiff.mp hnegative]
    | false =>
      rw [hnegative] at hiff
      simpa using hiff
  rw [printChars, partText_abs places him, partText_eq places hre, numberText, ← hsign]

/-! ### How far a part is from what is shown -/

/-- Distances are measured in units of the last place. -/
theorem abs_mul_sub (places : Nat) (u r : ℚ) : |u * (10 : ℚ) ^ (-(places : Int)) - r| =
    |u - r * 10 ^ places| * (10 : ℚ) ^ (-(places : Int)) := by
  have hpow : (0 : ℚ) < (10 : ℚ) ^ (-(places : Int)) := zpow_pos (by norm_num) _
  have hunit : r * 10 ^ places * (10 : ℚ) ^ (-(places : Int)) = r := by
    rw [mul_assoc, ← zpow_natCast, ← zpow_add₀ (by norm_num), add_neg_cancel, zpow_zero, mul_one]
  conv_lhs => rw [← hunit]
  rw [← sub_mul, abs_mul, abs_of_pos hpow]

theorem abs_value_shownPart_sub (places : Nat) (x : Float) :
    |(shownPart places x).value - toRat x| =
      |(unitsOf places x : ℚ) - |toRat x| * 10 ^ places| * (10 : ℚ) ^ (-(places : Int)) := by
  rw [← abs_mul_sub, ← size_shownPart]
  have hrat : toRat x = if (decode x).negative then -|toRat x| else |toRat x| := by
    rw [← toRat_magnitude_decode]
    rfl
  by_cases hunits : unitsOf places x = 0
  · -- a zero is as far from a number as from its opposite
    have hvalue : (shownPart places x).size = 0 := by
      rw [size_shownPart, hunits, Nat.cast_zero, zero_mul]
    have hsame : (shownPart places x).value = 0 := by
      rw [Shown.value, hvalue, neg_zero, ite_self]
    rw [hvalue, hsame, zero_sub, zero_sub, abs_neg, abs_neg, abs_abs]
  · rw [Shown.value, negative_shownPart_of_unitsOf_ne_zero hunits]
    conv_lhs => rw [hrat]
    split
    · rw [← neg_sub', abs_neg]
    · rfl

/-- **The decimal is at most half a unit of the last place away.** -/
theorem abs_value_shownPart_sub_le (places : Nat) (x : Float) :
    |(shownPart (min places allPlaces) x).value - toRat x| ≤ 10 ^ (-(places : Int)) / 2 := by
  have hpow : (0 : ℚ) < (10 : ℚ) ^ (-(places : Int)) := zpow_pos (by norm_num) _
  rw [abs_value_shownPart_sub]
  rcases Nat.le_total places allPlaces with hle | hge
  · have hhalf := mul_le_mul_of_nonneg_right (abs_unitsOf_sub_le places x) hpow.le
    rw [Nat.min_eq_left hle]
    linarith
  · -- past the last place of a double its digits are exact
    rw [Nat.min_eq_right hge, unitsOf_allPlaces, sub_self, abs_zero, zero_mul]
    exact (half_pos hpow).le

/-- A decimal that is shown is not larger than the largest double. -/
theorem size_shownPart_le (places : Nat) {x : Float} (hx : x.isFinite = true) :
    (shownPart places x).size ≤ maxFinite := by
  have hpow : (0 : ℚ) < 10 ^ places := by positivity
  have hcast : ((9007199254740991 * 2 ^ 971 * 10 ^ places : Nat) : ℚ) =
      maxFinite * 10 ^ places := by
    have hsignificand : ((9007199254740991 : Nat) : ℚ) = 2 ^ 53 - 1 := by norm_num
    rw [maxFinite, Nat.cast_mul, Nat.cast_mul, hsignificand, Nat.cast_pow, Nat.cast_pow,
      Nat.cast_ofNat, Nat.cast_ofNat]
  have hunits : unitsOf places x ≤ 9007199254740991 * 2 ^ 971 * 10 ^ places := by
    refine Ratio.round_le (Ratio.den_scale_pos 10 (by decide) _ (den_magnitude_pos x)) ?_
    rw [toRat_scale_magnitude, hcast]
    exact mul_le_mul_of_nonneg_right (Binary64.abs_toRat_le hx) hpow.le
  rw [size_shownPart, zpow_neg, zpow_natCast, ← div_eq_mul_inv, div_le_iff₀ hpow, ← hcast]
  exact_mod_cast hunits

/-! ### Reading back -/

theorem double_zero : (⟨false, ['0'], []⟩ : Shown).double = 0 := by decide +kernel

section Double

variable (places : Nat) {x : Float} (hx : x.isFinite = true)

include hx

theorem isNearest_size_shownPart :
    IsNearest (Numeral.value (shownPart places x).digits) (shownPart places x).size :=
  (tidy_shownPart places x).isNearest_size (size_shownPart_le places hx)

/-- What a decimal is read as is as near to its units as the double that was printed. -/
theorem abs_unitsOf_sub_value_le :
    |(unitsOf places x : ℚ) - toRat (Numeral.value (shownPart places x).digits) * 10 ^ places| ≤
      |(unitsOf places x : ℚ) - |toRat x| * 10 ^ places| := by
  have hpow : (0 : ℚ) < (10 : ℚ) ^ (-(places : Int)) := zpow_pos (by norm_num) _
  have habs : toRat x.abs = |toRat x| := by
    rw [toRat, Binary64.decode_abs hx, ← toRat_magnitude_decode]
    rfl
  have hnearest := (isNearest_size_shownPart places hx).nearest x.abs
    ((Binary64.isFinite_abs x).trans hx)
  rw [habs, size_shownPart, abs_sub_comm, abs_sub_comm |toRat x|, abs_mul_sub, abs_mul_sub]
    at hnearest
  exact le_of_mul_le_mul_right hnearest hpow

section Units

variable (hunits : unitsOf places x ≠ 0)

include hunits

/-- No part that has units left is read as zero. -/
theorem toRat_value_pos : 0 < toRat (Numeral.value (shownPart places x).digits) := by
  have hpow : (0 : ℚ) < 10 ^ places := by positivity
  have hclose := (abs_unitsOf_sub_value_le places hx).trans (abs_unitsOf_sub_le places x)
  have hone : (1 : ℚ) ≤ unitsOf places x := by exact_mod_cast Nat.one_le_iff_ne_zero.mpr hunits
  refine (mul_pos_iff_of_pos_right hpow).mp ?_
  have hlow := (abs_le.mp hclose).2
  linarith

theorem unitsOf_value : unitsOf places (Numeral.value (shownPart places x).digits) =
    unitsOf places x := by
  refine unitsOf_eq places ?_
  rw [abs_of_pos (toRat_value_pos places hx hunits)]
  exact abs_unitsOf_sub_value_le places hx

/-- A part that has units left is read as its size with its sign. -/
theorem double_eq_signed : (shownPart places x).double =
    signed (decode x).negative (Numeral.value (shownPart places x).digits) := by
  obtain ⟨hsign, hsignificand⟩ := Binary64.of_toRat_pos (toRat_value_pos places hx hunits)
  rw [Shown.double, negative_shownPart_of_unitsOf_ne_zero hunits]
  -- a zero is lost in a sum with anything but another zero
  refine Binary64.zero_add_of_not_zero rfl ?_
  rw [Bool.eq_false_iff, ne_eq, ← Binary64.significand_eq_zero_iff,
    Binary64.decode_signed (isNearest_size_shownPart places hx).finite hsign]
  exact hsignificand

end Units

/-- **A part is read as the double that is nearest to what is shown.** -/
theorem isNearest_double : IsNearest (shownPart places x).double (shownPart places x).value := by
  by_cases hunits : unitsOf places x = 0
  · -- nothing is left but a zero
    have hvalue : (⟨false, ['0'], []⟩ : Shown).value = 0 := by
      have hzero : ofDigits ['0'] = 0 := by decide
      simp [Shown.value, Shown.size, hzero]
    rw [shownPart_of_unitsOf_eq_zero hunits, hvalue, double_zero]
    exact Binary64.isNearest_zero le_rfl (by rw [mul_zero]; exact zpow_pos two_pos _)
  · rw [double_eq_signed places hx hunits, Shown.value,
      negative_shownPart_of_unitsOf_ne_zero hunits]
    exact (isNearest_size_shownPart places hx).signed _

/-- **What a part is read as is shown as the part was shown.** -/
theorem shownPart_double : shownPart places (shownPart places x).double = shownPart places x := by
  by_cases hunits : unitsOf places x = 0
  · rw [shownPart_of_unitsOf_eq_zero hunits, double_zero]
    exact shownPart_of_unitsOf_eq_zero (unitsOf_eq_zero places (by decide +kernel))
  · -- the sign is that of the part, and the units are those of its size
    have hsign := (Binary64.of_toRat_pos (toRat_value_pos places hx hunits)).1
    have hdecode := Binary64.decode_signed (isNearest_size_shownPart places hx).finite hsign
      (decode x).negative
    have hsame : unitsOf places (signed (decode x).negative
        (Numeral.value (shownPart places x).digits)) = unitsOf places x := by
      rw [← unitsOf_value places hx hunits, unitsOf, hdecode]
      rfl
    rw [double_eq_signed places hx hunits]
    conv_lhs => rw [shownPart, hsame, hdecode]
    rfl

end Double

/-! ### Whole numbers of places -/

/-- A number of places past the last of a double is as good as that of its last. -/
theorem printWith_eq {places : Nat} (hplaces : places ≤ maxPlaces) {z : ComplexNumber Float}
    (hre : z.re.isFinite = true) (him : z.im.isFinite = true) :
    printWith places z = .ok (String.ofList (numberText (shownPart (min places allPlaces) z.re)
      (shownPart (min places allPlaces) z.im))) := by
  rw [printWith, hre, Bool.true_or, if_pos rfl, checkPlaces_natCast hplaces,
    ← printChars_eq _ hre him]
  rfl

/-- **What is printed is read back.**  A number with finite parts is printed as two decimals, no
more than half a unit of the last place away from its parts.  None of them shows a zero that could
be left out, a point in front of nothing or a zero with a sign.  The text is a literal; each part
of the number that it denotes is the double nearest to the decimal, and the number is printed as
the same text. -/
theorem print_reads_back (z : ComplexNumber Float) (places : Nat) (hre : z.re.isFinite = true)
    (him : z.im.isFinite = true) (hplaces : places ≤ maxPlaces) (line : Int) :
    ∃ (text : String) (re im : Shown) (w : ComplexNumber Float),
      printWith places z = .ok text ∧ text.toList = numberText re im ∧
      (re.Tidy ∧ re.fraction.length ≤ places ∧
        |re.value - toRat z.re| ≤ 10 ^ (-(places : Int)) / 2) ∧
      (im.Tidy ∧ im.fraction.length ≤ places ∧
        |im.value - toRat z.im| ≤ 10 ^ (-(places : Int)) / 2) ∧
      isNumber text.toList = true ∧ parseNumber text.toList line = .ok w ∧
      IsNearest w.re re.value ∧ IsNearest w.im im.value ∧ printWith places w = .ok text := by
  -- what would be shown past the last place of a double are zeros
  let count := min places allPlaces
  let re := shownPart count z.re
  let im := shownPart count z.im
  have hnearRe : IsNearest re.double re.value := isNearest_double count hre
  have hnearIm : IsNearest im.double im.value := isNearest_double count him
  have hlength (x : Float) : (shownPart count x).fraction.length ≤ places := by
    obtain ⟨k, hk, -⟩ := exists_shown_append count (decode x).negative (unitsOf count x)
    have hcount : count ≤ places := Nat.min_le_left _ _
    rw [shownPart]
    omega
  have hread := parseNumber_numberText (tidy_shownPart count z.re) (tidy_shownPart count z.im) line
  refine ⟨String.ofList (numberText re im), re, im, ⟨re.double, im.double⟩,
    printWith_eq hplaces hre him, String.toList_ofList,
    ⟨tidy_shownPart _ _, hlength _, abs_value_shownPart_sub_le _ _⟩,
    ⟨tidy_shownPart _ _, hlength _, abs_value_shownPart_sub_le _ _⟩, ?_, ?_, hnearRe, hnearIm, ?_⟩
  · rw [String.toList_ofList]
    exact hread.1
  · rw [String.toList_ofList]
    exact hread.2
  · have hagain : printWith places ⟨re.double, im.double⟩ = .ok (String.ofList
        (numberText (shownPart count re.double) (shownPart count im.double))) :=
      printWith_eq hplaces hnearRe.finite hnearIm.finite
    rw [hagain, shownPart_double count hre, shownPart_double count him]

/-- With two places nothing is left of the imaginary part, and no sign. -/
theorem print_reads_back_two_places :
    (-12.345 : Float).isFinite = true ∧ (-0.004 : Float).isFinite = true ∧
      ((2 : Nat) : Int) ≤ maxPlaces ∧ printWith (2 : Nat) ⟨-12.345, -0.004⟩ = .ok "-12.35 + 0i" ∧
      ∃ w, parseNumber "-12.35 + 0i".toList 1 = .ok w ∧
        printWith (2 : Nat) w = .ok "-12.35 + 0i" := by
  have hre : (-12.345 : Float).isFinite = true := by decide +kernel
  have him : (-0.004 : Float).isFinite = true := by decide +kernel
  have hplaces : ((2 : Nat) : Int) ≤ maxPlaces := by decide
  have hshown : printWith (2 : Nat) ⟨-12.345, -0.004⟩ = .ok "-12.35 + 0i" := by decide +kernel
  obtain ⟨text, re, im, w, hprint, -, -, -, -, hparse, -, -, hagain⟩ :=
    print_reads_back ⟨-12.345, -0.004⟩ 2 hre him hplaces 1
  obtain rfl : text = "-12.35 + 0i" := Except.ok.inj (hprint.symm.trans hshown)
  exact ⟨hre, him, hplaces, hshown, w, hparse, hagain⟩

/-- There is a greatest number of places that a number can be printed with. -/
theorem print_too_many_places :
    (1 : Float).isFinite = true ∧ (0 : Float).isFinite = true ∧ (0 : Int) ≤ 2147483648 ∧
      ¬∃ text, printWith 2147483648 ⟨1, 0⟩ = .ok text := by
  have herror : printWith 2147483648 ⟨1, 0⟩ = .error .tooBig := by decide +kernel
  refine ⟨rfl, rfl, by decide, ?_⟩
  rintro ⟨text, htext⟩
  rw [herror] at htext
  cases htext

end Argand.ComplexNumber
