import Argand.Decimal.Numeral
import Argand.Formula.Lexeme
import Argand.Text.Blank
import Mathlib.Data.List.TakeWhile

/-!
# The longest numeral

The parts that a text starts with are found again in front of anything that does not go on
with them.  The characters of the parts are told apart here, and from the blanks between
lexemes.

## Main definitions

* `Numeral.Parts.Valid p` — the parts of some numeral.
* `Numeral.Parts.Stops p rest` — no part of `p` goes on into `rest`.

## Main results

* `Numeral.valid_parts`, `Numeral.parts_append` — **the parts at the start of a text are
  valid, and valid parts are found again in front of a text that does not go on with them.**
-/

namespace Argand

open Text

/-! ### Characters of literals -/

/-- What would make a test fail fails if the test does not. -/
theorem eq_false_of_imp {a b : Bool} (h : a = true → b = false) (hb : b = true) : a = false := by
  rw [Bool.eq_false_iff]
  intro ha
  rw [h ha] at hb
  cases hb

namespace Numeral

theorem isPoint_iff {c : Char} : isPoint c = true ↔ c = '.' ∨ c = ',' := by
  simp [isPoint]

theorem isExponentMark_iff {c : Char} : isExponentMark c = true ↔ c = 'e' ∨ c = 'E' := by
  simp [isExponentMark]

theorem isSign_iff {c : Char} : isSign c = true ↔ c = '+' ∨ c = '-' := by
  simp [isSign]

theorem isDigit_of_isPoint {c : Char} (h : isPoint c = true) : isDigit c = false := by
  rcases isPoint_iff.mp h with rfl | rfl <;> decide

theorem isDigit_of_isExponentMark {c : Char} (h : isExponentMark c = true) :
    isDigit c = false := by
  rcases isExponentMark_iff.mp h with rfl | rfl <;> decide

theorem isPoint_of_isExponentMark {c : Char} (h : isExponentMark c = true) :
    isPoint c = false := by
  rcases isExponentMark_iff.mp h with rfl | rfl <;> decide

theorem isExponentMark_of_isPoint {c : Char} (h : isPoint c = true) :
    isExponentMark c = false := by
  rcases isPoint_iff.mp h with rfl | rfl <;> decide

theorem isSign_of_isPoint {c : Char} (h : isPoint c = true) : isSign c = false := by
  rcases isPoint_iff.mp h with rfl | rfl <;> decide

theorem isDigit_of_isSign {c : Char} (h : isSign c = true) : isDigit c = false := by
  rcases isSign_iff.mp h with rfl | rfl <;> decide

theorem isSign_of_isDigit {c : Char} (h : isDigit c = true) : isSign c = false :=
  eq_false_of_imp isDigit_of_isSign h

theorem isExponentMark_of_isDigit {c : Char} (h : isDigit c = true) :
    isExponentMark c = false :=
  eq_false_of_imp isDigit_of_isExponentMark h

theorem isUnit_iff {c : Char} : isUnit c = true ↔ c = 'i' ∨ c = 'I' ∨ c = 'j' ∨ c = 'J' := by
  simp [isUnit, or_assoc]

theorem isDigit_of_isUnit {c : Char} (h : isUnit c = true) : isDigit c = false := by
  rcases isUnit_iff.mp h with rfl | rfl | rfl | rfl <;> decide

theorem isPoint_of_isUnit {c : Char} (h : isUnit c = true) : isPoint c = false := by
  rcases isUnit_iff.mp h with rfl | rfl | rfl | rfl <;> decide

theorem isExponentMark_of_isUnit {c : Char} (h : isUnit c = true) : isExponentMark c = false := by
  rcases isUnit_iff.mp h with rfl | rfl | rfl | rfl <;> decide

theorem isSign_of_isUnit {c : Char} (h : isUnit c = true) : isSign c = false := by
  rcases isUnit_iff.mp h with rfl | rfl | rfl | rfl <;> decide

theorem isBlank_of_isUnit {c : Char} (h : isUnit c = true) : isBlank c = false := by
  rcases isUnit_iff.mp h with rfl | rfl | rfl | rfl <;> decide

end Numeral

namespace Text

/-- A digit belongs to one of the runs of ten. -/
theorem exists_zero_of_isDigit {c : Char} (h : isDigit c = true) :
    ∃ start ∈ digitZeros, start ≤ c.toNat ∧ c.toNat ≤ start + 9 := by
  rw [isDigit, digitValue?, Option.isSome_map, Option.isSome_iff_exists] at h
  obtain ⟨start, hstart⟩ := h
  have hrange := List.find?_some hstart
  rw [Bool.and_eq_true, decide_eq_true_eq, decide_eq_true_eq] at hrange
  exact ⟨start, List.mem_of_find?_eq_some hstart, hrange⟩

/-- No run of digits reaches a blank. -/
theorem digitZeros_between_blanks : ∀ start ∈ digitZeros,
    0x20 < start ∧ start + 9 < 0x85 ∨ 0xA0 < start ∧ start + 9 < 0x1680 ∨
      0x1680 < start ∧ start + 9 < 0x2000 ∨ 0x3000 < start := by
  decide

theorem isBlank_of_isDigit {c : Char} (h : isDigit c = true) : isBlank c = false := by
  obtain ⟨start, hmem, hlo, hhi⟩ := exists_zero_of_isDigit h
  have hbetween := digitZeros_between_blanks start hmem
  rw [Bool.eq_false_iff, ne_eq]
  intro hblank
  simp only [isBlank, Bool.or_eq_true, Bool.and_eq_true, decide_eq_true_eq, beq_iff_eq] at hblank
  omega

/-- Names are written in printable ASCII. -/
theorem toNat_of_isNameChar {c : Char} (h : isNameChar c = true) :
    0x20 < c.toNat ∧ c.toNat < 0x85 := by
  have hval : c.val.toNat = c.toNat := rfl
  have hranges : (decide ('A'.val ≤ c.val ∧ c.val ≤ 'Z'.val) ||
      ('a'.val ≤ c.val && c.val ≤ 'z'.val) ||
      ('0'.val ≤ c.val && c.val ≤ '9'.val) || c == '_') = true := h
  simp only [Bool.or_eq_true, Bool.and_eq_true, decide_eq_true_eq, beq_iff_eq,
    UInt32.le_iff_toNat_le, hval] at hranges
  rcases hranges with ((⟨hlo, hhi⟩ | ⟨hlo, hhi⟩) | ⟨hlo, hhi⟩) | rfl
  · change 65 ≤ _ at hlo
    change _ ≤ 90 at hhi
    omega
  · change 97 ≤ _ at hlo
    change _ ≤ 122 at hhi
    omega
  · change 48 ≤ _ at hlo
    change _ ≤ 57 at hhi
    omega
  · decide

theorem isBlank_of_isNameChar {c : Char} (h : isNameChar c = true) : isBlank c = false := by
  have hrange := toNat_of_isNameChar h
  rw [Bool.eq_false_iff, ne_eq]
  intro hblank
  simp only [isBlank, Bool.or_eq_true, Bool.and_eq_true, decide_eq_true_eq, beq_iff_eq] at hblank
  omega

theorem isNameChar_of_isBlank {c : Char} (h : isBlank c = true) : isNameChar c = false :=
  eq_false_of_imp isBlank_of_isNameChar h

theorem isDigit_of_isBlank {c : Char} (h : isBlank c = true) : isDigit c = false :=
  eq_false_of_imp isBlank_of_isDigit h

end Text

/-! ### Parts of numerals -/

namespace Numeral

open Text

/-- The parts of some numeral: digits, a point with digits, and a mark with a sign, if any,
and digits. -/
structure Parts.Valid (p : Parts) : Prop where
  whole : ∀ c ∈ p.whole, isDigit c = true
  point : p.point = [] ∨
    ∃ c ds, p.point = c :: ds ∧ isPoint c = true ∧ ∀ d ∈ ds, isDigit d = true
  exponent : p.exponent = [] ∨
    ∃ m sign ds, p.exponent = m :: (sign ++ ds) ∧ isExponentMark m = true ∧
      (sign = [] ∨ ∃ s, sign = [s] ∧ isSign s = true) ∧ ds ≠ [] ∧ ∀ d ∈ ds, isDigit d = true

/-- None of the parts goes on into a text. -/
structure Parts.Stops (p : Parts) (rest : List Char) : Prop where
  digit : ∀ c ∈ rest.head?, isDigit c = false
  point : ∀ c ∈ rest.head?, isPoint c = false
  exponent : p.exponent = [] → exponentPart rest = []

theorem signPart_cases (cs : List Char) :
    signPart cs = [] ∨ ∃ s, signPart cs = [s] ∧ isSign s = true := by
  cases cs with
  | nil => exact .inl rfl
  | cons c cs =>
    rw [signPart]
    split
    · next h => exact .inr ⟨c, rfl, h⟩
    · exact .inl rfl

/-- The parts at the start of a text are valid. -/
theorem valid_parts (cs : List Char) : (parts cs).Valid where
  whole c hc := List.mem_takeWhile_imp hc
  point := by
    generalize hrest : cs.drop (cs.takeWhile isDigit).length = rest
    have hpoint : (parts cs).point = pointPart rest := by rw [← hrest]; rfl
    rw [hpoint]
    cases rest with
    | nil => exact .inl rfl
    | cons c rest =>
      rw [pointPart]
      split
      · next h => exact .inr ⟨c, _, rfl, h, fun d hd => List.mem_takeWhile_imp hd⟩
      · exact .inl rfl
  exponent := by
    generalize hrest : cs.drop ((parts cs).whole.length + (parts cs).point.length) = rest
    have hexponent : (parts cs).exponent = exponentPart rest := by rw [← hrest]; rfl
    rw [hexponent]
    cases rest with
    | nil => exact .inl rfl
    | cons m rest =>
      rw [exponentPart]
      split
      · next h =>
        rw [Bool.and_eq_true, Bool.not_eq_true', List.isEmpty_eq_false_iff] at h
        exact .inr ⟨m, _, _, rfl, h.1, signPart_cases rest, h.2,
          fun d hd => List.mem_takeWhile_imp hd⟩
      · exact .inl rfl

theorem forall_head?_cons {p : Char → Prop} {c : Char} {cs : List Char} :
    (∀ d ∈ (c :: cs).head?, p d) ↔ p c := by
  simp

/-- Characters that satisfy `p` are taken in front of one that does not. -/
theorem takeWhile_append_stop {p : Char → Bool} {cs rest : List Char} (hcs : ∀ c ∈ cs, p c = true)
    (hrest : ∀ c ∈ rest.head?, p c = false) : (cs ++ rest).takeWhile p = cs := by
  rw [List.takeWhile_append_of_pos hcs]
  cases rest with
  | nil => simp
  | cons c rest => simp [hrest c rfl]

/-- What follows the point is neither a digit nor a point. -/
theorem Parts.Valid.head_exponent {p : Parts} (hp : p.Valid) {rest : List Char}
    (hrest : p.Stops rest) :
    ∀ c ∈ (p.exponent ++ rest).head?, isDigit c = false ∧ isPoint c = false := by
  rcases hp.exponent with hexponent | ⟨m, sign, ds, hexponent, hm, -⟩
  · rw [hexponent, List.nil_append]
    exact fun c hc => ⟨hrest.digit c hc, hrest.point c hc⟩
  · rw [hexponent]
    exact forall_head?_cons.mpr ⟨isDigit_of_isExponentMark hm, isPoint_of_isExponentMark hm⟩

/-- What follows the whole part is not a digit. -/
theorem Parts.Valid.head_point {p : Parts} (hp : p.Valid) {rest : List Char}
    (hrest : p.Stops rest) : ∀ c ∈ (p.point ++ (p.exponent ++ rest)).head?, isDigit c = false := by
  rcases hp.point with hpoint | ⟨d, ds, hpoint, hd, -⟩
  · rw [hpoint, List.nil_append]
    exact fun c hc => (hp.head_exponent hrest c hc).1
  · rw [hpoint]
    intro c hc
    obtain rfl : d = c := by simpa using hc
    exact isDigit_of_isPoint hd

/-- A sign is found again in front of digits. -/
theorem signPart_append {sign ds : List Char}
    (hsign : sign = [] ∨ ∃ s, sign = [s] ∧ isSign s = true) (hne : ds ≠ [])
    (hds : ∀ d ∈ ds, isDigit d = true) (rest : List Char) :
    signPart (sign ++ (ds ++ rest)) = sign := by
  rcases hsign with rfl | ⟨s, rfl, hs⟩
  · obtain ⟨d, ds', rfl⟩ := List.exists_cons_of_ne_nil hne
    have hd : isSign d = false := isSign_of_isDigit (hds d (List.mem_cons_self ..))
    rw [List.nil_append, List.cons_append, signPart, hd]
    rfl
  · rw [List.cons_append, signPart, if_pos hs]

/-- Valid parts are found again in front of a text that does not go on with them. -/
theorem parts_append {p : Parts} (hp : p.Valid) {rest : List Char} (hrest : p.Stops rest) :
    parts (p.text ++ rest) = p := by
  have htext : p.text ++ rest = p.whole ++ (p.point ++ (p.exponent ++ rest)) := by
    simp [Parts.text]
  have hwhole : (p.text ++ rest).takeWhile isDigit = p.whole := by
    rw [htext]
    exact takeWhile_append_stop hp.whole (hp.head_point hrest)
  have hpoint : pointPart (p.point ++ (p.exponent ++ rest)) = p.point := by
    have hhead := hp.head_exponent hrest
    rcases hp.point with hpoint | ⟨c, ds, hpoint, hc, hds⟩
    · rw [hpoint, List.nil_append]
      cases hafter : p.exponent ++ rest with
      | nil => rfl
      | cons c cs =>
        rw [hafter] at hhead
        rw [pointPart, (hhead c rfl).2]
        rfl
    · rw [hpoint, List.cons_append, pointPart, if_pos hc,
        takeWhile_append_stop hds fun d hd => (hhead d hd).1]
  have hexponent : exponentPart (p.exponent ++ rest) = p.exponent := by
    rcases hp.exponent with hnone | ⟨m, sign, ds, hexponent, hm, hsign, hne, hds⟩
    · rw [hnone, List.nil_append]
      exact hrest.exponent hnone
    · have hsignPart := signPart_append hsign hne hds rest
      have hdigits : ((sign ++ (ds ++ rest)).drop sign.length).takeWhile isDigit = ds := by
        rw [List.drop_left]
        exact takeWhile_append_stop hds hrest.digit
      rw [hexponent, List.cons_append, List.append_assoc, exponentPart, hsignPart, hdigits, hm,
        List.isEmpty_eq_false_iff.mpr hne]
      rfl
  have hdrop : (p.whole ++ (p.point ++ (p.exponent ++ rest))).drop
      (p.whole.length + p.point.length) = p.exponent ++ rest := by
    rw [← List.append_assoc, ← List.length_append, List.drop_left]
  rw [htext] at hwhole
  unfold parts
  rw [htext]
  simp only [hwhole, List.drop_left, hpoint, hdrop, hexponent]

theorem isBlank_of_isPoint {c : Char} (h : isPoint c = true) : isBlank c = false := by
  rcases isPoint_iff.mp h with rfl | rfl <;> decide

theorem isBlank_of_isExponentMark {c : Char} (h : isExponentMark c = true) :
    isBlank c = false := by
  rcases isExponentMark_iff.mp h with rfl | rfl <;> decide

theorem isPoint_of_isBlank {c : Char} (h : isBlank c = true) : isPoint c = false :=
  eq_false_of_imp isBlank_of_isPoint h

theorem isExponentMark_of_isBlank {c : Char} (h : isBlank c = true) :
    isExponentMark c = false :=
  eq_false_of_imp isBlank_of_isExponentMark h

theorem isUnit_of_isBlank {c : Char} (h : isBlank c = true) : isUnit c = false :=
  eq_false_of_imp isBlank_of_isUnit h

theorem exponentPart_of_not_mark {c : Char} (hc : isExponentMark c = false) (cs : List Char) :
    exponentPart (c :: cs) = [] := by
  rw [exponentPart, hc]
  rfl

/-- No part goes on into a text that starts with neither a digit nor a point nor a mark. -/
theorem Parts.stops_of_head (p : Parts) {rest : List Char}
    (hdigit : ∀ c ∈ rest.head?, isDigit c = false) (hpoint : ∀ c ∈ rest.head?, isPoint c = false)
    (hmark : ∀ c ∈ rest.head?, isExponentMark c = false) : p.Stops rest where
  digit := hdigit
  point := hpoint
  exponent _ := by
    cases rest with
    | nil => rfl
    | cons c rest => exact exponentPart_of_not_mark (hmark c rfl) rest

/-- A numeral starts with a digit or a point. -/
theorem Parts.Valid.exists_digit_or_point {p : Parts} (hp : p.Valid)
    (hnumeral : p.isNumeral = true) :
    ∃ c cs, p.text = c :: cs ∧ (isDigit c = true ∨ isPoint c = true) := by
  rw [Parts.text]
  cases hwhole : p.whole with
  | cons c cs => exact ⟨c, _, rfl, .inl (hp.whole c (by simp [hwhole]))⟩
  | nil =>
    rcases hp.point with hpoint | ⟨c, ds, hpoint, hc, -⟩
    · rw [Parts.isNumeral, hwhole, hpoint] at hnumeral
      cases hnumeral
    · rw [hpoint]
      exact ⟨c, _, rfl, .inr hc⟩

theorem Parts.Valid.exists_text_eq_cons {p : Parts} (hp : p.Valid) (hnumeral : p.isNumeral = true) :
    ∃ c cs, p.text = c :: cs ∧ isBlank c = false := by
  obtain ⟨c, cs, htext, hc⟩ := hp.exists_digit_or_point hnumeral
  exact ⟨c, cs, htext, hc.elim isBlank_of_isDigit isBlank_of_isPoint⟩

theorem Parts.Valid.text_ne_nil {p : Parts} (hp : p.Valid) (hnumeral : p.isNumeral = true) :
    p.text ≠ [] := by
  obtain ⟨c, cs, htext, -⟩ := hp.exists_digit_or_point hnumeral
  rw [htext]
  exact List.cons_ne_nil c cs

/-! ### The start of a text -/

theorem signPart_isPrefix (cs : List Char) : signPart cs <+: cs := by
  cases cs with
  | nil => exact List.prefix_refl _
  | cons c cs =>
    rw [signPart]
    split
    · exact ⟨cs, rfl⟩
    · exact List.nil_prefix

theorem pointPart_isPrefix (cs : List Char) : pointPart cs <+: cs := by
  cases cs with
  | nil => exact List.prefix_refl _
  | cons c cs =>
    rw [pointPart]
    split
    · exact (List.prefix_cons_inj c).mpr (List.takeWhile_prefix _)
    · exact List.nil_prefix

/-- A prefix goes on with a prefix of what follows it. -/
theorem append_isPrefix {xs ys cs : List Char} (hxs : xs <+: cs) (hys : ys <+: cs.drop xs.length) :
    xs ++ ys <+: cs := by
  rw [← List.prefix_iff_eq_append.mp hxs]
  exact (List.prefix_append_right_inj xs).mpr hys

theorem exponentPart_isPrefix (cs : List Char) : exponentPart cs <+: cs := by
  cases cs with
  | nil => exact List.prefix_refl _
  | cons m cs =>
    rw [exponentPart]
    split
    · exact (List.prefix_cons_inj m).mpr
        (append_isPrefix (signPart_isPrefix cs) (List.takeWhile_prefix _))
    · exact List.nil_prefix

/-- A text starts with its longest numeral. -/
theorem text_parts_isPrefix (cs : List Char) : (parts cs).text <+: cs := by
  have hwhole : (parts cs).whole <+: cs := List.takeWhile_prefix _
  have hpoint := append_isPrefix hwhole (pointPart_isPrefix _)
  have hexponent := append_isPrefix hpoint (exponentPart_isPrefix _)
  rw [List.length_append] at hexponent
  exact hexponent

end Numeral

end Argand
