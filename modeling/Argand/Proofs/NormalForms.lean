import Argand.Formula.Literal
import Argand.Proofs.Numerals

/-!
# Normal forms of literals

The normal form of a literal has no blanks around its signs, and points for commas.  Here the
characters of the normal form are found again in the text itself.

## Main definitions

* `Literal.normalFrom afterSign cs` — the normal form of what is left of a text.
* `Literal.tightExponents cs` — no blank stands beside the sign of a power of ten.

## Main results

* `Literal.exists_append_of_normalFrom`, `Literal.trimStart_of_normalFrom` — characters other
  than signs stood where they stand, and a sign stood between blanks.
* `Literal.exists_parts_of_map` — a numeral with commas has the same value.
* `Literal.split_of_normalFrom` — **a numeral of the normal form stood in the text as it is, or
  a blank stood beside the sign of its exponent.**
-/

namespace Argand.Literal

open Text Numeral

/-! ### Normal forms of what is left of a text -/

/-- The normal form of a text that follows a sign, or does not. -/
def normalFrom (afterSign : Bool) (cs : List Char) : List Char :=
  (tightenSigns afterSign cs).map pointForComma

theorem pointForComma_of_ne {c : Char} (h : c ≠ ',') : pointForComma c = c := by
  simp [pointForComma, h]

theorem pointForComma_eq_of_ne {c d : Char} (h : pointForComma c = d) (hd : d ≠ '.') : c = d := by
  rw [pointForComma] at h
  split at h
  · exact absurd h.symm hd
  · exact h

/-- What is true of a comma if it is true of a point is the same in a normal form. -/
theorem apply_pointForComma {β : Type} (f : Char → β) (h : f '.' = f ',') (c : Char) :
    f (pointForComma c) = f c := by
  rw [pointForComma]
  split
  · next hc => rw [h, beq_iff_eq.mp hc]
  · rfl

theorem isSign_pointForComma (c : Char) : isSign (pointForComma c) = isSign c :=
  apply_pointForComma isSign rfl c

theorem isBlank_of_isSign {c : Char} (h : isSign c = true) : isBlank c = false := by
  rcases isSign_iff.mp h with rfl | rfl <;> decide

theorem isSign_of_isBlank {c : Char} (h : isBlank c = true) : isSign c = false :=
  eq_false_of_imp isBlank_of_isSign h

theorem tightenSigns_of_not_blank {c : Char} (hc : isBlank c = false) (afterSign : Bool)
    (cs : List Char) : tightenSigns afterSign (c :: cs) = c :: tightenSigns (isSign c) cs := by
  rw [tightenSigns, hc]
  rfl

/-- After a sign the blanks do not count. -/
theorem tightenSigns_true (cs : List Char) :
    tightenSigns true cs = tightenSigns false (trimStart cs) := by
  induction cs with
  | nil => rfl
  | cons c cs ih =>
    cases hc : isBlank c with
    | true => rw [tightenSigns, hc, trimStart_cons_of_blank hc, ← ih]; rfl
    | false =>
      rw [trimStart_cons_of_not_blank hc, tightenSigns_of_not_blank hc,
        tightenSigns_of_not_blank hc]

/-- Before a sign the blanks do not count either. -/
theorem tightenSigns_of_sign {cs rest : List Char} {s : Char} (hs : isSign s = true)
    (h : trimStart cs = s :: rest) (afterSign : Bool) :
    tightenSigns afterSign cs = s :: tightenSigns true rest := by
  induction cs generalizing afterSign with
  | nil => exact absurd h (by simp)
  | cons c cs ih =>
    cases hc : isBlank c with
    | true =>
      rw [trimStart_cons_of_blank hc] at h
      rw [tightenSigns, hc, h, List.head?_cons, Option.any_some, hs, Bool.or_true]
      exact ih h afterSign
    | false =>
      rw [trimStart_cons_of_not_blank hc] at h
      obtain ⟨rfl, rfl⟩ := List.cons.inj h
      rw [tightenSigns_of_not_blank hc, hs]

theorem normalFrom_of_not_blank {c : Char} (hc : isBlank c = false) (cs : List Char) :
    normalFrom false (c :: cs) = pointForComma c :: normalFrom (isSign c) cs := by
  rw [normalFrom, tightenSigns_of_not_blank hc]
  rfl

/-- A blank at the start of a text is kept, unless a sign comes after the blanks. -/
theorem normalFrom_of_blank {c : Char} (hc : isBlank c = true) (cs : List Char) :
    (∃ rest, normalFrom false (c :: cs) = c :: rest) ∨
      ∃ s cs', isSign s = true ∧ trimStart cs = s :: cs' ∧
        normalFrom false (c :: cs) = s :: normalFrom true cs' := by
  cases hnext : (trimStart cs).head?.any isSign with
  | false =>
    have hcomma := pointForComma_of_ne (c := c) (by rintro rfl; exact absurd hc (by decide))
    refine .inl ⟨normalFrom false cs, ?_⟩
    rw [normalFrom, tightenSigns, hc, hnext]
    change pointForComma c :: _ = _
    rw [hcomma]
    rfl
  | true =>
    rw [Option.any_eq_true] at hnext
    obtain ⟨s, hs, hsign⟩ := hnext
    obtain ⟨cs', hcs'⟩ := List.head?_eq_some_iff.mp hs
    have hcomma := pointForComma_of_ne (c := s) (by rintro rfl; exact absurd hsign (by decide))
    refine .inr ⟨s, cs', hsign, hcs', ?_⟩
    rw [normalFrom, tightenSigns_of_sign hsign ((trimStart_cons_of_blank hc cs).trans hcs'),
      List.map_cons, hcomma]
    rfl

/-- A character of the normal form that is neither blank nor a sign stands where it stood. -/
theorem exists_cons_of_normalFrom {cs rest : List Char} {d : Char}
    (h : normalFrom false cs = d :: rest) (hblank : isBlank d = false) (hsign : isSign d = false) :
    ∃ c cs', cs = c :: cs' ∧ pointForComma c = d ∧ normalFrom false cs' = rest := by
  cases cs with
  | nil => exact absurd h (by simp [normalFrom, tightenSigns])
  | cons c cs =>
    cases hc : isBlank c with
    | false =>
      rw [normalFrom_of_not_blank hc] at h
      obtain ⟨hd, hrest⟩ := List.cons.inj h
      have hcsign : isSign c = false := by rw [← isSign_pointForComma, hd, hsign]
      rw [hcsign] at hrest
      exact ⟨c, cs, rfl, hd, hrest⟩
    | true =>
      exfalso
      rcases normalFrom_of_blank hc cs with ⟨_, hkept⟩ | ⟨s, _, hs, -, hdropped⟩
      · rw [hkept] at h
        rw [← (List.cons.inj h).1, hc] at hblank
        cases hblank
      · rw [hdropped] at h
        rw [← (List.cons.inj h).1, hs] at hsign
        cases hsign

/-- A unit of the normal form stands where it stood. -/
theorem exists_cons_of_unit {cs rest : List Char} {u : Char} (h : normalFrom false cs = u :: rest)
    (hu : isUnit u = true) : ∃ cs', cs = u :: cs' ∧ normalFrom false cs' = rest := by
  have hpoint : u ≠ '.' := by
    rintro rfl
    cases hu
  obtain ⟨c, cs', rfl, hc, hcs'⟩ := exists_cons_of_normalFrom h (isBlank_of_isUnit hu)
    (isSign_of_isUnit hu)
  obtain rfl := pointForComma_eq_of_ne hc hpoint
  exact ⟨cs', rfl, hcs'⟩

/-- A sign of the normal form stood behind blanks, and blanks may have followed it. -/
theorem trimStart_of_normalFrom {cs rest : List Char} {s : Char}
    (h : normalFrom false cs = s :: rest) (hs : isSign s = true) :
    ∃ cs', trimStart cs = s :: cs' ∧ normalFrom false (trimStart cs') = rest := by
  have htrue (ds : List Char) : normalFrom true ds = normalFrom false (trimStart ds) := by
    rw [normalFrom, tightenSigns_true]
    rfl
  cases cs with
  | nil => exact absurd h (by simp [normalFrom, tightenSigns])
  | cons c cs =>
    cases hc : isBlank c with
    | false =>
      rw [normalFrom_of_not_blank hc] at h
      obtain ⟨hcs, hrest⟩ := List.cons.inj h
      have hne : s ≠ '.' := by rintro rfl; exact absurd hs (by decide)
      obtain rfl := pointForComma_eq_of_ne hcs hne
      rw [hs, htrue] at hrest
      exact ⟨cs, trimStart_cons_of_not_blank hc cs, hrest⟩
    | true =>
      rcases normalFrom_of_blank hc cs with ⟨_, hkept⟩ | ⟨s', cs', -, htrim, hdropped⟩
      · rw [hkept] at h
        obtain rfl := (List.cons.inj h).1
        rw [isBlank_of_isSign hs] at hc
        cases hc
      · rw [hdropped, htrue] at h
        obtain ⟨rfl, hrest⟩ := List.cons.inj h
        exact ⟨cs', (trimStart_cons_of_blank hc cs).trans htrim, hrest⟩

/-- A row of characters that are neither blank nor signs stands where it stood. -/
theorem exists_append_of_normalFrom {ds : List Char} (hblank : ∀ d ∈ ds, isBlank d = false)
    (hsign : ∀ d ∈ ds, isSign d = false) :
    ∀ {cs rest : List Char}, normalFrom false cs = ds ++ rest →
      ∃ cs' cs'', cs = cs' ++ cs'' ∧ cs'.map pointForComma = ds ∧
        normalFrom false cs'' = rest := by
  induction ds with
  | nil =>
    intro cs rest h
    exact ⟨[], cs, rfl, rfl, h⟩
  | cons d ds ih =>
    intro cs rest h
    obtain ⟨c, cs', rfl, hd, hrest⟩ := exists_cons_of_normalFrom h
      (hblank d (List.mem_cons_self ..)) (hsign d (List.mem_cons_self ..))
    obtain ⟨ds', cs'', rfl, hds, hrest⟩ := ih (fun e he => hblank e (List.mem_cons_of_mem _ he))
      (fun e he => hsign e (List.mem_cons_of_mem _ he)) hrest
    exact ⟨c :: ds', cs'', rfl, by rw [List.map_cons, hd, hds], hrest⟩

/-! ### Numerals with a comma -/

/-- No digit is a comma. -/
theorem map_pointForComma_of_digits {ds : List Char} (hds : ∀ d ∈ ds, isDigit d = true) :
    ds.map pointForComma = ds := by
  conv => rhs; rw [← List.map_id ds]
  refine List.map_congr_left fun d hd => pointForComma_of_ne ?_
  rintro rfl
  exact absurd (hds _ hd) (by decide)

/-- What has no point in its normal form has no comma. -/
theorem eq_of_map_pointForComma {ds es : List Char} (h : ds.map pointForComma = es)
    (hes : ∀ d ∈ es, d ≠ '.') : ds = es := by
  rw [← h]
  conv => lhs; rw [← List.map_id ds]
  refine List.map_congr_left fun d hd => ?_
  have hne := hes _ (h ▸ List.mem_map_of_mem hd)
  exact pointForComma_eq_of_ne rfl hne

theorem takeWhile_map_pointForComma {p : Char → Bool} (hp : p '.' = p ',') (cs : List Char) :
    (cs.map pointForComma).takeWhile p = (cs.takeWhile p).map pointForComma := by
  rw [List.takeWhile_map]
  congr 2
  exact funext (apply_pointForComma p hp)

theorem signPart_map_pointForComma (cs : List Char) :
    signPart (cs.map pointForComma) = (signPart cs).map pointForComma := by
  cases cs with
  | nil => rfl
  | cons c cs =>
    rw [List.map_cons, signPart, signPart, isSign_pointForComma]
    split <;> rfl

theorem pointPart_map_pointForComma (cs : List Char) :
    pointPart (cs.map pointForComma) = (pointPart cs).map pointForComma := by
  cases cs with
  | nil => rfl
  | cons c cs =>
    rw [List.map_cons, pointPart, pointPart, apply_pointForComma isPoint rfl,
      takeWhile_map_pointForComma (by decide)]
    split <;> rfl

theorem exponentPart_map_pointForComma (cs : List Char) :
    exponentPart (cs.map pointForComma) = (exponentPart cs).map pointForComma := by
  cases cs with
  | nil => rfl
  | cons c cs =>
    have hempty (ds : List Char) : (ds.map pointForComma).isEmpty = ds.isEmpty := by
      cases ds <;> rfl
    simp only [List.map_cons, exponentPart, apply_pointForComma isExponentMark rfl,
      signPart_map_pointForComma, List.length_map, ← List.map_drop,
      takeWhile_map_pointForComma (p := isDigit) (by decide), hempty]
    split <;> simp

/-- The parts of a numeral with points for commas are its parts with points for commas. -/
theorem parts_map_pointForComma (cs : List Char) :
    parts (cs.map pointForComma) =
      ⟨(parts cs).whole.map pointForComma, (parts cs).point.map pointForComma,
        (parts cs).exponent.map pointForComma⟩ := by
  simp only [parts, takeWhile_map_pointForComma (p := isDigit) (by decide), List.length_map,
    ← List.map_drop, pointPart_map_pointForComma, exponentPart_map_pointForComma]

theorem ofDigits_map_pointForComma (ds : List Char) :
    Decimal.ofDigits (ds.map pointForComma) = Decimal.ofDigits ds := by
  rw [Decimal.ofDigits, List.foldl_map]
  congr 1
  funext n c
  rw [apply_pointForComma digitValue (by decide)]

/-- The power of ten is written without commas. -/
theorem exponent_map_pointForComma {p : Parts} (hp : p.Valid) :
    p.exponent.map pointForComma = p.exponent := by
  conv => rhs; rw [← List.map_id p.exponent]
  refine List.map_congr_left fun c hc => pointForComma_of_ne ?_
  rintro rfl
  rcases hp.exponent with hnone | ⟨m, sign, ds, hexponent, hm, hsign, -, hds⟩
  · rw [hnone] at hc
    cases hc
  · rw [hexponent, List.mem_cons, List.mem_append] at hc
    rcases hc with rfl | hc | hc
    · exact absurd hm (by decide)
    · rcases hsign with rfl | ⟨s, rfl, hs⟩
      · cases hc
      · obtain rfl := List.mem_singleton.mp hc
        exact absurd hs (by decide)
    · exact absurd (hds _ hc) (by decide)

/-- A comma in a numeral counts as a point. -/
theorem value_map_pointForComma (cs : List Char) :
    Numeral.value (cs.map pointForComma) = Numeral.value cs := by
  rw [Numeral.value, Numeral.value, parts_map_pointForComma,
    exponent_map_pointForComma (valid_parts cs)]
  simp only [Parts.value, Parts.power, ← List.map_drop, ← List.map_append, List.length_map,
    ofDigits_map_pointForComma]

/-- A numeral whose points are commas has parts of its own, with the same value. -/
theorem exists_parts_of_map {p : Parts} (hp : p.Valid) {ds : List Char}
    (h : ds.map pointForComma = p.text) :
    ∃ q : Parts, q.Valid ∧ q.text = ds ∧ q.isNumeral = p.isNumeral ∧
      Numeral.value ds = Numeral.value p.text := by
  have hmap : parts (ds.map pointForComma) = p := by
    rw [h, ← List.append_nil p.text]
    exact parts_append hp ⟨by simp, by simp, fun _ => rfl⟩
  rw [parts_map_pointForComma] at hmap
  have hvalid := valid_parts ds
  have hprefix := text_parts_isPrefix ds
  refine ⟨parts ds, hvalid, hprefix.eq_of_length ?_, ?_, ?_⟩
  · have hlength := congrArg List.length h
    rw [List.length_map, ← hmap, Parts.text] at hlength
    rw [hlength, Parts.text]
    simp
  · rw [← hmap, Parts.isNumeral, Parts.isNumeral]
    simp
  · rw [← h, value_map_pointForComma]

/-! ### Blanks in exponents -/

/-- Whether a blank comes next, or after a sign that comes next. -/
def blankAhead (cs : List Char) : Bool := (cs.drop (signPart cs).length).head?.any isBlank

/-- No blank stands between the mark of an exponent and its digits. -/
def tightExponents : List Char → Bool
  | [] => true
  | c :: cs => !(isExponentMark c && blankAhead cs) && tightExponents cs

theorem blankAhead_cases {cs : List Char} (h : blankAhead cs = true) :
    ∃ b ds, isBlank b = true ∧ (cs = b :: ds ∨ ∃ s, isSign s = true ∧ cs = s :: b :: ds) := by
  cases cs with
  | nil => exact absurd h (by decide)
  | cons c cs =>
    rw [blankAhead, signPart] at h
    cases hc : isSign c with
    | false =>
      rw [hc] at h
      exact ⟨c, cs, h, .inl rfl⟩
    | true =>
      rw [hc] at h
      cases cs with
      | nil => exact absurd h (by simp)
      | cons b ds => exact ⟨b, ds, h, .inr ⟨c, hc, rfl⟩⟩

theorem blankAhead_append {cs : List Char} (h : blankAhead cs = true) (tail : List Char) :
    blankAhead (cs ++ tail) = true := by
  obtain ⟨b, ds, hb, rfl | ⟨s, hs, rfl⟩⟩ := blankAhead_cases h
  · rw [List.cons_append, blankAhead, signPart, isSign_of_isBlank hb]
    exact hb
  · rw [List.cons_append, blankAhead, signPart, hs]
    exact hb

/-- Where a sign is next but for blanks, and no blank is ahead, the sign is next. -/
theorem eq_cons_of_blankAhead {cs ds : List Char} {s : Char} (h : blankAhead cs = false)
    (hs : isSign s = true) (htrim : trimStart cs = s :: ds) : cs = s :: ds ∧ trimStart ds = ds := by
  cases cs with
  | nil => exact absurd htrim (by simp)
  | cons c cs =>
    cases hc : isBlank c with
    | true =>
      rw [blankAhead, signPart, isSign_of_isBlank hc] at h
      exact absurd (hc.symm.trans h) (by decide)
    | false =>
      rw [trimStart_cons_of_not_blank hc] at htrim
      obtain ⟨rfl, rfl⟩ := List.cons.inj htrim
      refine ⟨rfl, ?_⟩
      rw [blankAhead, signPart, hs] at h
      cases cs with
      | nil => rfl
      | cons d ds => exact trimStart_cons_of_not_blank h ds

theorem tightExponents_of_not_mark {c : Char} (hc : isExponentMark c = false) (cs : List Char) :
    tightExponents (c :: cs) = tightExponents cs := by
  rw [tightExponents, hc]
  rfl

/-- Only what follows a mark counts. -/
theorem tightExponents_append {ds : List Char} (hds : ∀ d ∈ ds, isExponentMark d = false)
    (cs : List Char) : tightExponents (ds ++ cs) = tightExponents cs := by
  induction ds with
  | nil => rfl
  | cons d ds ih =>
    rw [List.cons_append, tightExponents_of_not_mark (hds d (List.mem_cons_self ..))]
    exact ih fun e he => hds e (List.mem_cons_of_mem _ he)

theorem tightExponents_trimStart (cs : List Char) :
    tightExponents (trimStart cs) = tightExponents cs := by
  conv => rhs; rw [← takeWhile_append_trimStart cs]
  refine (tightExponents_append (fun d hd => ?_) _).symm
  exact isExponentMark_of_isBlank (List.mem_takeWhile_imp hd)

/-- The digits before an exponent and its point are no marks. -/
theorem forall_mantissa {p : Parts} (hp : p.Valid) {f : Char → Bool}
    (hdigit : ∀ d, isDigit d = true → f d = false) (hpoint : ∀ d, isPoint d = true → f d = false) :
    ∀ d ∈ p.whole ++ p.point, f d = false := by
  intro d hd
  rcases List.mem_append.mp hd with hd | hd
  · exact hdigit d (hp.whole d hd)
  · rcases hp.point with hnone | ⟨c, ds, hsome, hc, hds⟩
    · rw [hnone] at hd
      cases hd
    · rw [hsome, List.mem_cons] at hd
      rcases hd with rfl | hd
      · exact hpoint d hc
      · exact hdigit d (hds d hd)

/-- The exponent of a numeral is tight. -/
theorem tightExponents_text_append {p : Parts} (hp : p.Valid) (cs : List Char) :
    tightExponents (p.text ++ cs) = tightExponents cs := by
  rw [Parts.text, List.append_assoc, tightExponents_append
    (forall_mantissa hp (fun _ => isExponentMark_of_isDigit) fun _ => isExponentMark_of_isPoint)]
  rcases hp.exponent with hnone | ⟨m, sign, ds, hexponent, hm, hsign, hne, hds⟩
  · rw [hnone, List.nil_append]
  · have hsignMark : ∀ d ∈ sign ++ ds, isExponentMark d = false := by
      intro d hd
      rcases List.mem_append.mp hd with hd | hd
      · rcases hsign with rfl | ⟨s, rfl, hs⟩
        · cases hd
        · obtain rfl := List.mem_singleton.mp hd
          rcases isSign_iff.mp hs with rfl | rfl <;> decide
      · exact isExponentMark_of_isDigit (hds d hd)
    have hahead : blankAhead (sign ++ (ds ++ cs)) = false := by
      rw [blankAhead, signPart_append hsign hne hds, List.drop_left]
      obtain ⟨d, ds', rfl⟩ := List.exists_cons_of_ne_nil hne
      exact isBlank_of_isDigit (hds d (List.mem_cons_self ..))
    rw [hexponent, List.cons_append, tightExponents, List.append_assoc, hahead, Bool.and_false,
      ← List.append_assoc, tightExponents_append hsignMark]
    rfl

/-! ### Numerals of normal forms -/

/-- A numeral of the normal form stood in the text as it is, or a blank stood beside the sign of
its exponent. -/
theorem split_of_normalFrom {p : Parts} (hp : p.Valid) {cs rest : List Char}
    (h : normalFrom false cs = p.text ++ rest) :
    (∃ ds cs', cs = ds ++ cs' ∧ ds.map pointForComma = p.text ∧ normalFrom false cs' = rest) ∨
      ∃ ds m cs', cs = ds ++ m :: cs' ∧ ds.map pointForComma = p.whole ++ p.point ∧
        isExponentMark m = true ∧ blankAhead cs' = true := by
  have hmantissaBlank := forall_mantissa hp (fun _ => isBlank_of_isDigit)
    fun _ => isBlank_of_isPoint
  have hmantissaSign := forall_mantissa hp (fun _ => isSign_of_isDigit) fun _ => isSign_of_isPoint
  rw [Parts.text, List.append_assoc] at h
  obtain ⟨ds, cs₁, rfl, hds, hcs₁⟩ := exists_append_of_normalFrom hmantissaBlank hmantissaSign h
  rcases hp.exponent with hnone | ⟨m, sign, es, hexponent, hm, hsign, -, hes⟩
  · -- nothing but digits and a point, which no blank can separate
    rw [hnone, List.nil_append] at hcs₁
    exact .inl ⟨ds, cs₁, rfl, by rw [hds, Parts.text, hnone, List.append_nil], hcs₁⟩
  · have hmBlank : isBlank m = false := by
      rcases isExponentMark_iff.mp hm with rfl | rfl <;> decide
    have hmSign : isSign m = false := by
      rcases isExponentMark_iff.mp hm with rfl | rfl <;> decide
    have hmPoint : m ≠ '.' := by
      rintro rfl
      cases hm
    rw [hexponent, List.cons_append, List.append_assoc] at hcs₁
    obtain ⟨m', cs₂, rfl, hm', hcs₂⟩ := exists_cons_of_normalFrom hcs₁ hmBlank hmSign
    obtain rfl := pointForComma_eq_of_ne hm' hmPoint
    have hdigits {cs₃ : List Char} (h₃ : normalFrom false cs₃ = es ++ rest) :
        ∃ cs', cs₃ = es ++ cs' ∧ normalFrom false cs' = rest := by
      obtain ⟨es', cs', rfl, hes', hcs'⟩ := exists_append_of_normalFrom
        (fun d hd => isBlank_of_isDigit (hes d hd)) (fun d hd => isSign_of_isDigit (hes d hd)) h₃
      refine ⟨cs', ?_, hcs'⟩
      rw [eq_of_map_pointForComma hes' fun d hd => ?_]
      rintro rfl
      exact absurd (hes _ hd) (by decide)
    rcases hsign with rfl | ⟨s, rfl, hs⟩
    · -- the digits follow the mark
      obtain ⟨cs', rfl, hcs'⟩ := hdigits hcs₂
      refine .inl ⟨ds ++ m' :: es, cs', by simp, ?_, hcs'⟩
      rw [List.map_append, hds, Parts.text, hexponent, List.map_cons, hm', List.nil_append,
        map_pointForComma_of_digits hes]
    · -- the sign may have lost blanks on either side
      obtain ⟨cs₃, htrim, hcs₃⟩ := trimStart_of_normalFrom hcs₂ hs
      cases hahead : blankAhead cs₂ with
      | true => exact .inr ⟨ds, m', cs₂, rfl, hds, hm, hahead⟩
      | false =>
        obtain ⟨rfl, htight⟩ := eq_cons_of_blankAhead hahead hs htrim
        rw [htight] at hcs₃
        obtain ⟨cs', rfl, hcs'⟩ := hdigits hcs₃
        have hsPoint : s ≠ ',' := by
          rintro rfl
          cases hs
        refine .inl ⟨ds ++ m' :: s :: es, cs', by simp, ?_, hcs'⟩
        rw [List.map_append, hds, Parts.text, hexponent, List.map_cons, hm', List.map_cons,
          pointForComma_of_ne hsPoint, map_pointForComma_of_digits hes]
        rfl

end Argand.Literal
