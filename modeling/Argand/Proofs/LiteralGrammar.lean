import Argand.Proofs.LiteralLexemes
import Argand.Proofs.Spelling

/-!
# The grammar of literals

A literal is a row of terms, each but the first behind a sign.  Blanks may stand around the signs
and commas for points.  Here this is said without a scanner, and the terms that are read are
those that are written.

## Main definitions

* `Tightened cs n` — `n` is the text without the blanks around its signs.
* `Written cs ts` — the text is a literal with these terms.
* `pieces cs` — the terms that a text is cut into from left to right, without a check.
* `Term.count t z` — the number with a term added to one of its parts.

## Main results

* `tightened_iff` — the normal form is made by leaving out blanks around signs.
* `terms?_eq_some_iff` — **a text is read as the terms that it is made of.**
* `pieces_row` — a row of terms is cut into its terms, and an empty term at its end.
* `parseNumber_reads_written` — **what is read is what is written, term by term.**
-/

namespace Argand.Literal

open Text Numeral

/-! ### Blanks around signs -/

/-- The text without the blanks on either side of each of its signs. -/
inductive Tightened : List Char → List Char → Prop
  | unsigned {cs : List Char} (h : ∀ c ∈ cs, isSign c = false) : Tightened cs cs
  | sign {before after n : List Char} {s : Char} (hbefore : ∀ c ∈ before, isSign c = false)
      (hs : isSign s = true) (h : Tightened (trimStart after) n) :
    Tightened (before ++ s :: after) (trimEnd before ++ s :: n)

/-- Every text has a sign in it or none. -/
theorem sign_cases (cs : List Char) :
    (∀ c ∈ cs, isSign c = false) ∨ ∃ before s after, cs = before ++ s :: after ∧
      (∀ c ∈ before, isSign c = false) ∧ isSign s = true := by
  induction cs with
  | nil => exact .inl fun c hc => nomatch hc
  | cons c cs ih =>
    cases hc : isSign c with
    | true => exact .inr ⟨[], c, cs, rfl, fun d hd => (nomatch hd), hc⟩
    | false =>
      rcases ih with hnone | ⟨before, s, after, rfl, hbefore, hs⟩
      · exact .inl (List.forall_mem_cons.mpr ⟨hc, hnone⟩)
      · exact .inr ⟨c :: before, s, after, rfl, List.forall_mem_cons.mpr ⟨hc, hbefore⟩, hs⟩

theorem exists_tightened (cs : List Char) : ∃ n, Tightened cs n := by
  -- by the length of the text
  induction hlength : cs.length using Nat.strongRecOn generalizing cs with
  | ind length ih =>
    rcases sign_cases cs with hnone | ⟨before, s, after, rfl, hbefore, hs⟩
    · exact ⟨cs, .unsigned hnone⟩
    · have hshorter := length_trimStart_le after
      rw [List.length_append, List.length_cons] at hlength
      obtain ⟨n, hn⟩ := ih _ (by omega) (trimStart after) rfl
      exact ⟨_, .sign hbefore hs hn⟩

/-- The next character that is not blank belongs to what comes first, if there is any in it. -/
theorem head?_trimStart_append {kept : List Char} (hkept : ∃ c ∈ kept, isBlank c = false)
    (rest : List Char) : ∃ c ∈ kept, (trimStart (kept ++ rest)).head? = some c := by
  induction kept with
  | nil =>
    obtain ⟨c, hc, -⟩ := hkept
    cases hc
  | cons c kept ih =>
    cases hc : isBlank c with
    | false =>
      refine ⟨c, List.mem_cons_self .., ?_⟩
      rw [List.cons_append, trimStart_cons_of_not_blank hc, List.head?_cons]
    | true =>
      obtain ⟨d, hd, hdblank⟩ := hkept
      have hmem : d ∈ kept := by
        rcases List.mem_cons.mp hd with rfl | hd
        · rw [hc] at hdblank
          cases hdblank
        · exact hd
      obtain ⟨e, he, hhead⟩ := ih ⟨d, hmem, hdblank⟩
      refine ⟨e, List.mem_cons_of_mem c he, ?_⟩
      rwa [List.cons_append, trimStart_cons_of_blank hc]

/-- A blank stays if no sign comes after the blanks. -/
theorem tightenSigns_of_loose {c : Char} {cs : List Char} (hc : isBlank c = true)
    (hnext : (trimStart cs).head?.any isSign = false) :
    tightenSigns false (c :: cs) = c :: tightenSigns false cs := by
  rw [tightenSigns, hc, hnext]
  rfl

/-- A text without signs is kept as it is. -/
theorem tightenSigns_of_unsigned {cs : List Char} (hsign : ∀ c ∈ cs, isSign c = false) :
    tightenSigns false cs = cs := by
  induction cs with
  | nil => rfl
  | cons c cs ih =>
    obtain ⟨hc, hcs⟩ := List.forall_mem_cons.mp hsign
    cases hblank : isBlank c with
    | false => rw [tightenSigns_of_not_blank hblank, hc, ih hcs]
    | true =>
      have hnext : (trimStart cs).head?.any isSign = false := by
        rw [Option.any_eq_false]
        intro d hd
        have hmem : d ∈ trimStart cs := List.mem_of_head? hd
        rw [hcs d (takeWhile_append_trimStart cs ▸ List.mem_append_right _ hmem)]
      rw [tightenSigns_of_loose hblank hnext, ih hcs]

/-- What ends in a character that is not blank is kept as it is. -/
theorem tightenSigns_append {kept : List Char} (hsign : ∀ c ∈ kept, isSign c = false)
    (hlast : ∀ c ∈ kept.getLast?, isBlank c = false) (rest : List Char) :
    tightenSigns false (kept ++ rest) = kept ++ tightenSigns false rest := by
  induction kept with
  | nil => rfl
  | cons c kept ih =>
    obtain ⟨hc, hkept⟩ := List.forall_mem_cons.mp hsign
    have htail : ∀ d ∈ kept.getLast?, isBlank d = false := by
      intro d hd
      refine hlast d ?_
      cases kept with
      | nil => cases hd
      | cons e kept => rwa [List.getLast?_cons_cons]
    rw [List.cons_append]
    cases hblank : isBlank c with
    | false => rw [tightenSigns_of_not_blank hblank, hc, ih hkept htail, List.cons_append]
    | true =>
      -- some later character is not blank, and the next such is no sign
      have hlater : ∃ d ∈ kept, isBlank d = false := by
        cases kept with
        | nil =>
          rw [hlast c rfl] at hblank
          cases hblank
        | cons e kept =>
          have hmem := List.getLast_mem (List.cons_ne_nil e kept)
          exact ⟨_, hmem, htail _ (List.getLast?_eq_some_getLast _)⟩
      obtain ⟨d, hd, hhead⟩ := head?_trimStart_append hlater rest
      rw [tightenSigns_of_loose hblank (by rw [hhead, Option.any_some, hkept d hd]),
        ih hkept htail, List.cons_append]

theorem trimStart_append_cons {bs : List Char} (hbs : ∀ b ∈ bs, isBlank b = true) {c : Char}
    (hc : isBlank c = false) (cs : List Char) : trimStart (bs ++ c :: cs) = c :: cs := by
  induction bs with
  | nil => exact trimStart_cons_of_not_blank hc cs
  | cons b bs ih =>
    obtain ⟨hb, hbs⟩ := List.forall_mem_cons.mp hbs
    rw [List.cons_append, trimStart_cons_of_blank hb, ih hbs]

theorem Tightened.tightenSigns_eq {cs n : List Char} (h : Tightened cs n) :
    tightenSigns false cs = n := by
  induction h with
  | unsigned hsign => exact tightenSigns_of_unsigned hsign
  | @sign before after n s hbefore hs _ ih =>
    obtain ⟨bs, hbs, htrim⟩ := exists_trimEnd_append before
    have hkept : ∀ c ∈ trimEnd before, isSign c = false :=
      fun c hc => hbefore c (htrim ▸ List.mem_append_left bs hc)
    have hrest : trimStart (bs ++ s :: after) = s :: after :=
      trimStart_append_cons hbs (isBlank_of_isSign hs) after
    conv => lhs; rw [← htrim, List.append_assoc]
    rw [tightenSigns_append hkept (getLast?_trimEnd before), tightenSigns_of_sign hs hrest,
      tightenSigns_true, ih]

/-- **The normal form leaves out the blanks around signs, and nothing else.** -/
theorem tightened_iff {cs n : List Char} : Tightened cs n ↔ tightenSigns false cs = n := by
  refine ⟨Tightened.tightenSigns_eq, ?_⟩
  rintro rfl
  obtain ⟨n, hn⟩ := exists_tightened cs
  rwa [hn.tightenSigns_eq]

/-! ### Rows of terms -/

/-- No numeral goes on into a sign. -/
theorem stops_of_sign (p : Parts) {rest : List Char} (hrest : ∀ c ∈ rest.head?, isSign c = true) :
    p.Stops rest := by
  refine p.stops_of_head (fun c hc => isDigit_of_isSign (hrest c hc))
    (fun c hc => eq_false_of_imp isSign_of_isPoint (hrest c hc)) fun c hc => ?_
  rcases isSign_iff.mp (hrest c hc) with rfl | rfl <;> decide

/-- A unit is found again in front of a sign. -/
theorem unitPart_append {unit rest : List Char}
    (hunit : unit = [] ∨ ∃ u, unit = [u] ∧ isUnit u = true)
    (hrest : ∀ c ∈ rest.head?, isSign c = true) : unitPart (unit ++ rest) = unit := by
  rcases hunit with rfl | ⟨u, rfl, hu⟩
  · cases rest with
    | nil => rfl
    | cons s rest =>
      have hnot : isUnit s = false := eq_false_of_imp isSign_of_isUnit (hrest s rfl)
      rw [List.nil_append, unitPart, hnot]
      rfl
  · rw [List.singleton_append, unitPart, if_pos hu]

/-- The digits of a term are found again in front of its unit and a sign. -/
theorem Term.Valid.leading_append {t : Term} (ht : t.Valid) {rest : List Char}
    (hrest : ∀ c ∈ rest.head?, isSign c = true) :
    leading (t.digits ++ (t.unit ++ rest)) = t.digits := by
  rcases ht.digits with hnone | ⟨p, hp, hnumeral, hdigits⟩
  · obtain ⟨u, hunit, hu⟩ := ht.unit.resolve_left (ht.complete hnone)
    rw [hnone, hunit, List.nil_append, List.singleton_append, leading, if_neg]
    rw [parts, List.takeWhile_cons_of_neg (by simp [isDigit_of_isUnit hu]), List.length_nil,
      List.drop_zero, pointPart, isPoint_of_isUnit hu]
    exact Bool.false_ne_true
  · have hstops : p.Stops (t.unit ++ rest) := by
      rcases ht.unit with hunit | ⟨u, hunit, hu⟩
      · rw [hunit]
        exact stops_of_sign p hrest
      · rw [hunit]
        exact Lexer.stops_of_isUnit p hu rest
    rw [← hdigits, leading, parts_append hp hstops, if_pos hnumeral]

/-- What is left of a term without its sign does not start with one. -/
theorem Term.Valid.signPart_eq {t : Term} (ht : t.Valid) (rest : List Char) :
    signPart (t.sign ++ (t.digits ++ (t.unit ++ rest))) = t.sign := by
  rcases ht.sign with hsign | ⟨s, hsign, hs⟩
  · obtain ⟨c, cs, hcs, hc⟩ : ∃ c cs, t.digits ++ (t.unit ++ rest) = c :: cs ∧
        isSign c = false := by
      rcases ht.digits with hnone | ⟨p, hp, hnumeral, hdigits⟩
      · obtain ⟨u, hunit, hu⟩ := ht.unit.resolve_left (ht.complete hnone)
        exact ⟨u, rest, by rw [hnone, hunit]; rfl, isSign_of_isUnit hu⟩
      · obtain ⟨c, cs, htext, hc⟩ := hp.exists_digit_or_point hnumeral
        refine ⟨c, cs ++ (t.unit ++ rest), by rw [← hdigits, htext]; rfl, ?_⟩
        exact hc.elim isSign_of_isDigit isSign_of_isPoint
    rw [hsign, hcs, List.nil_append, signPart, hc]
    rfl
  · rw [hsign, List.singleton_append, signPart, if_pos hs]

/-- A term is found again in front of a sign. -/
theorem Term.Valid.leadingTerm_append {t : Term} (ht : t.Valid) {rest : List Char}
    (hrest : ∀ c ∈ rest.head?, isSign c = true) : leadingTerm (t.text ++ rest) = t := by
  have htext : t.text ++ rest = t.sign ++ (t.digits ++ (t.unit ++ rest)) := by
    simp [Term.text]
  have hdrop : (t.sign ++ (t.digits ++ (t.unit ++ rest))).drop (t.sign.length + t.digits.length) =
      t.unit ++ rest := by
    rw [← List.append_assoc, ← List.length_append, List.drop_left]
  unfold leadingTerm
  simp only [htext, ht.signPart_eq, List.drop_left, ht.leading_append hrest, hdrop,
    unitPart_append ht.unit hrest]

theorem Term.Valid.leadingTerm_text {t : Term} (ht : t.Valid) : leadingTerm t.text = t := by
  have hnone : ∀ c ∈ ([] : List Char).head?, isSign c = true := nofun
  have hleading := ht.leadingTerm_append hnone
  rwa [List.append_nil] at hleading

theorem Term.Valid.isComplete {t : Term} (ht : t.Valid) : t.isComplete = true := by
  simp only [Term.isComplete, Bool.or_eq_true, Bool.not_eq_true', List.isEmpty_eq_false_iff]
  exact Decidable.or_iff_not_imp_left.mpr fun hnone => ht.complete (not_not.mp hnone)

/-- Further terms start with a sign. -/
theorem head_flatMap_text {more : List Term} (hmore : ∀ t ∈ more, t.Valid ∧ t.sign ≠ []) :
    ∀ c ∈ (more.flatMap Term.text).head?, isSign c = true := by
  cases more with
  | nil => exact fun c hc => nomatch hc
  | cons t more =>
    obtain ⟨ht, hne⟩ := hmore t (List.mem_cons_self ..)
    obtain ⟨s, hsign, hs⟩ := ht.sign.resolve_left hne
    rw [List.flatMap_cons, Term.text, hsign]
    exact forall_head?_cons.mpr hs

/-- A row of terms without its first. -/
theorem Row.tail {signed : Bool} {t first : Term} {more : List Term}
    (h : Row signed t (first :: more)) : Row true first more := by
  obtain ⟨hfirst, hmore⟩ := List.forall_mem_cons.mp h.more
  exact ⟨hfirst.1, fun _ => hfirst.2, hmore⟩

/-- A row of terms is read as its terms. -/
theorem Row.termsFrom?_eq {signed : Bool} {first : Term} {more : List Term}
    (h : Row signed first more) :
    termsFrom? signed ((first :: more).flatMap Term.text) = some (first :: more) := by
  induction more generalizing signed first with
  | nil =>
    have hleading := h.valid.leadingTerm_text
    have hfits : first.fits signed = true := fits_iff.mpr ⟨h.valid.isComplete, h.sign⟩
    rw [List.flatMap_singleton, termsFrom?, hleading, dif_pos hfits, if_pos (Nat.le_refl _)]
  | cons t more ih =>
    have hleading := h.valid.leadingTerm_append (head_flatMap_text h.more)
    have hfits : first.fits signed = true := fits_iff.mpr ⟨h.valid.isComplete, h.sign⟩
    have hpos : 0 < t.text.length := Term.length_text_pos h.tail.valid.isComplete
    have hlonger : ¬ (first.text ++ (t :: more).flatMap Term.text).length ≤ first.text.length := by
      rw [List.length_append, List.flatMap_cons, List.length_append]
      omega
    rw [List.flatMap_cons, termsFrom?, hleading, dif_pos hfits, if_neg hlonger, List.drop_left,
      ih h.tail]
    rfl

/-- The terms that are read make up the text. -/
theorem flatMap_text_of_termsFrom? (signed : Bool) (n : List Char) : ∀ ts : List Term,
    termsFrom? signed n = some ts → ts.flatMap Term.text = n := by
  induction signed, n using termsFrom?.induct with
  | case1 signed n hfits hlast =>
    intro ts hts
    rw [termsFrom?, dif_pos hfits, if_pos hlast] at hts
    obtain rfl := Option.some.inj hts
    have htext := text_leadingTerm_append n
    rw [List.drop_eq_nil_of_le hlast, List.append_nil] at htext
    rw [List.flatMap_singleton, htext]
  | case2 signed n hfits hmore ih =>
    intro ts hts
    rw [termsFrom?, dif_pos hfits, if_neg hmore] at hts
    obtain ⟨us, hus, rfl⟩ := Option.map_eq_some_iff.mp hts
    rw [List.flatMap_cons, ih us hus, text_leadingTerm_append]
  | case3 signed n hfits =>
    intro ts hts
    rw [termsFrom?, dif_neg hfits] at hts
    cases hts

/-- **A text is read as the terms that it is made of**, if it is a row of terms. -/
theorem termsFrom?_eq_some_iff {signed : Bool} {n : List Char} {ts : List Term} :
    termsFrom? signed n = some ts ↔
      ts.flatMap Term.text = n ∧ ∃ first more, ts = first :: more ∧ Row signed first more := by
  constructor
  · intro h
    exact ⟨flatMap_text_of_termsFrom? signed n ts h, row_of_termsFrom? signed n ts h⟩
  · rintro ⟨rfl, first, more, rfl, hrow⟩
    exact hrow.termsFrom?_eq

/-! ### Pieces of a text -/

/-- The terms that a text is cut into from left to right.  Each may be empty; a character that no
term starts with is left out. -/
def pieces : List Char → List Term
  | [] => [leadingTerm []]
  | c :: cs =>
    leadingTerm (c :: cs) :: pieces (cs.drop ((leadingTerm (c :: cs)).text.length - 1))
termination_by cs => cs.length
decreasing_by
  rw [List.length_drop, List.length_cons]
  omega

/-- A term adds its value to one of the parts; an empty one adds nothing. -/
def Term.count (t : Term) (z : ComplexNumber Float) : ComplexNumber Float :=
  if !t.isComplete then z
  else if t.isImaginary then ⟨z.re, z.im + t.value⟩
  else ⟨z.re + t.value, z.im⟩

/-- The next piece is the longest term. -/
theorem pieces_eq_cons {cs : List Char} (h : (leadingTerm cs).isComplete = true) :
    pieces cs = leadingTerm cs :: pieces (cs.drop (leadingTerm cs).text.length) := by
  cases cs with
  | nil => cases h
  | cons c cs =>
    have hpos := Term.length_text_pos h
    have hwidth : (leadingTerm (c :: cs)).text.length =
        (leadingTerm (c :: cs)).text.length - 1 + 1 := by omega
    rw [pieces]
    conv => rhs; rw [hwidth, List.drop_succ_cons]

/-- **A row of terms is cut into its terms**, and no character is left out: nothing but an empty
piece stands at its end. -/
theorem pieces_row {signed : Bool} {first : Term} {more : List Term} (h : Row signed first more) :
    pieces ((first :: more).flatMap Term.text) = (first :: more) ++ [⟨[], [], []⟩] := by
  induction more generalizing signed first with
  | nil =>
    have hleading := h.valid.leadingTerm_text
    rw [List.flatMap_singleton, pieces_eq_cons (hleading.symm ▸ h.valid.isComplete), hleading,
      List.drop_length, pieces]
    rfl
  | cons t more ih =>
    have hleading := h.valid.leadingTerm_append (head_flatMap_text h.more)
    rw [List.flatMap_cons, pieces_eq_cons (hleading.symm ▸ h.valid.isComplete), hleading,
      List.drop_left, ih h.tail]
    rfl

/-- One term after the other is added to one of the parts, so that each part is a sum of its
own. -/
theorem foldl_count {ts : List Term} (hts : ∀ t ∈ ts, t.isComplete = true)
    (z : ComplexNumber Float) :
    ts.foldl (fun z t => t.count z) z =
      ⟨(ts.filter (!·.isImaginary)).foldl (fun total t => total + t.value) z.re,
        (ts.filter (·.isImaginary)).foldl (fun total t => total + t.value) z.im⟩ := by
  induction ts generalizing z with
  | nil => rfl
  | cons t ts ih =>
    obtain ⟨ht, hts⟩ := List.forall_mem_cons.mp hts
    rw [List.foldl_cons, ih hts, Term.count, ht, List.filter_cons, List.filter_cons]
    cases t.isImaginary <;> rfl

/-! ### What is read and what is written -/

/-- A text is a literal: without the blanks at its ends and around its signs, and with points for
commas, it is a row of terms. -/
def Written (cs : List Char) (ts : List Term) : Prop :=
  ∃ n, Tightened (trim cs) n ∧ ts.flatMap Term.text = n.map pointForComma ∧
    ∃ first more, ts = first :: more ∧ Row false first more

theorem terms?_normalize_eq_some_iff {cs : List Char} {ts : List Term} :
    terms? (normalize cs) = some ts ↔ Written cs ts := by
  rw [terms?, termsFrom?_eq_some_iff, Written]
  constructor
  · rintro ⟨htext, hrow⟩
    exact ⟨_, tightened_iff.mpr rfl, htext, hrow⟩
  · rintro ⟨n, hn, htext, hrow⟩
    obtain rfl := tightened_iff.mp hn
    exact ⟨htext, hrow⟩

/-- A literal has terms, -/
theorem exists_terms_of_isNumber {cs : List Char} (h : isNumber cs = true) :
    ∃ ts, terms? (normalize cs) = some ts := by
  rwa [isNumber, read?, Option.isSome_map, Option.isSome_iff_exists] at h

/-- and it is read as their sum. -/
theorem parseNumber_of_terms {cs : List Char} {ts : List Term}
    (h : terms? (normalize cs) = some ts) (line : Int) :
    isNumber cs = true ∧ parseNumber cs line = .ok (value ts) := by
  rw [isNumber, parseNumber, read?, h]
  exact ⟨rfl, rfl⟩

/-- **What is read is what is written, term by term.**  A text is read if and only if it is a
literal.  Then the pieces of its normal form are its terms and nothing else, and each part of the
number is the sum of the values of its terms, from zero and from left to right.  Any other text
is blamed at the start of its line. -/
theorem parseNumber_reads_written (cs : List Char) (line : Int) :
    match parseNumber cs line with
    | .ok z => isNumber cs = true ∧ ∃ ts, Written cs ts ∧
        pieces (normalize cs) = ts ++ [⟨[], [], []⟩] ∧
        z = (pieces (normalize cs)).foldl (fun z t => t.count z) ⟨0, 0⟩ ∧
        z.re = (ts.filter (!·.isImaginary)).foldl (fun total t => total + t.value) 0 ∧
        z.im = (ts.filter (·.isImaginary)).foldl (fun total t => total + t.value) 0
    | .error e => isNumber cs = false ∧ (∀ ts, ¬Written cs ts) ∧
        e = ⟨line, 0, .notANumber (String.ofList (trim cs))⟩ := by
  rw [parseNumber, isNumber, read?]
  cases hts : terms? (normalize cs) with
  | none =>
    refine ⟨rfl, fun ts h => ?_, rfl⟩
    rw [terms?_normalize_eq_some_iff.mpr h] at hts
    cases hts
  | some ts =>
    obtain ⟨htext, first, more, rfl, hrow⟩ := termsFrom?_eq_some_iff.mp hts
    have hpieces : pieces (normalize cs) = (first :: more) ++ [⟨[], [], []⟩] := by
      rw [← htext, pieces_row hrow]
    have hcomplete : ∀ t ∈ first :: more, t.isComplete = true :=
      List.forall_mem_cons.mpr ⟨hrow.valid.isComplete, fun t ht => (hrow.more t ht).1.isComplete⟩
    have hsum : (pieces (normalize cs)).foldl (fun z t => t.count z) ⟨0, 0⟩ =
        value (first :: more) := by
      rw [hpieces, List.foldl_append, foldl_count hcomplete]
      rfl
    exact ⟨rfl, first :: more, terms?_normalize_eq_some_iff.mp hts, hpieces, hsum.symm, rfl, rfl⟩

example : pieces "2-.5e1i+J".toList = [⟨[], ['2'], []⟩, ⟨['-'], ['.', '5', 'e', '1'], ['i']⟩,
    ⟨['+'], [], ['J']⟩, ⟨[], [], []⟩] := by decide +kernel

end Argand.Literal
