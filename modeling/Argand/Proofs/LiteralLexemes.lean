import Argand.Proofs.Lines
import Argand.Proofs.NormalForms
import Argand.Proofs.Spelling

/-!
# Literals among lexemes

Inside an expression a literal is not read as a whole.  It is cut into lexemes: the sign, the
numeral and the unit of each of its terms.  The blanks around its signs are skipped there, so
the lexemes are those of its terms, with one exception.  A sign may belong to the power of
ten; a blank beside such a sign is dropped from a literal, but it ends a lexeme, and what is
left of the exponent is its mark, which is a name.

## Main definitions

* `Breaks rest` — what may stand behind a term in an expression.
* `Term.Valid t`, `Row signed first more` — a term, and terms one after the other.
* `Term.kinds t` — the lexemes of a term.
* `CutOff signed cs` — the lexemes of some terms, and then a name.

## Main results

* `row_of_termsFrom?` — what is read as a literal is a row of terms.
* `reads_terms`, `reads_literal` — **the lexemes of a literal are those of its terms, unless a
  blank beside the sign of a power of ten cuts it off.**
-/

namespace Argand.Literal

open Text Numeral

/-! ### Lexemes of terms -/

/-- What stands behind a term in an expression: a blank, a sign or a closing parenthesis. -/
def Breaks (rest : List Char) : Prop :=
  ∀ c ∈ rest.head?, isBlank c = true ∨ isSign c = true ∨ c = ')'

namespace Breaks

variable {rest : List Char}

/-- What stands behind a term is not part of it. -/
theorem head (h : Breaks rest) {f : Char → Bool} (hblank : ∀ c, isBlank c = true → f c = false)
    (hplus : f '+' = false) (hminus : f '-' = false) (hparen : f ')' = false) :
    ∀ c ∈ rest.head?, f c = false := by
  intro c hc
  rcases h c hc with hb | hs | rfl
  · exact hblank c hb
  · rcases isSign_iff.mp hs with rfl | rfl
    · exact hplus
    · exact hminus
  · exact hparen

theorem head_isNameChar (h : Breaks rest) : ∀ c ∈ rest.head?, isNameChar c = false :=
  h.head (fun _ => isNameChar_of_isBlank) (by decide) (by decide) (by decide)

/-- No numeral goes on into what stands behind a term. -/
theorem stops (h : Breaks rest) (p : Parts) : p.Stops rest :=
  p.stops_of_head
    (h.head (fun _ => isDigit_of_isBlank) (by decide) (by decide) (by decide))
    (h.head (fun _ => isPoint_of_isBlank) (by decide) (by decide) (by decide))
    (h.head (fun _ => isExponentMark_of_isBlank) (by decide) (by decide) (by decide))

/-- A numeral takes no unit from what stands behind a term. -/
theorem suffixPart_eq_nil (h : Breaks rest) : Lexer.suffixPart rest = [] :=
  Lexer.suffixPart_of_head
    (h.head (fun _ => isUnit_of_isBlank) (by decide) (by decide) (by decide))

/-- What is left of a literal in front of a closing parenthesis, say, stands behind a term
if its normal form does. -/
theorem of_normalFrom {tail cs : List Char} (htail : Breaks tail)
    (h : ∀ c ∈ (normalFrom false cs).head?, isSign c = true) : Breaks (cs ++ tail) := by
  cases cs with
  | nil => exact htail
  | cons c cs =>
    refine forall_head?_cons.mpr ?_
    cases hc : isBlank c with
    | true => exact .inl rfl
    | false =>
      rw [normalFrom_of_not_blank hc, forall_head?_cons, isSign_pointForComma] at h
      exact .inr (.inl h)

end Breaks

/-! ### Operands -/

/-- The lexeme of a term without its sign. -/
def Term.operandKind (t : Term) : Lexeme.Kind :=
  if t.digits.isEmpty then .name (String.ofList t.unit)
  else .number (if t.unit.isEmpty then .ofReal (Numeral.value t.digits)
    else .ofImaginary (Numeral.value t.digits))

/-- A unit alone is read as a name. -/
theorem reads_unit {u : Char} (hu : isUnit u = true) {rest : List Char} (hrest : Breaks rest) :
    Lexer.Reads (u :: rest) [.name (String.ofList [u])] rest :=
  Lexer.Reads.letter (isDigit_of_isUnit hu) (isPoint_of_isUnit hu) (isNameStart_of_isUnit hu)
    hrest.head_isNameChar

/-- A numeral is read with its unit. -/
theorem reads_numeral {p : Parts} (hp : p.Valid) (hnumeral : p.isNumeral = true)
    {unit rest : List Char} (hunit : unit = [] ∨ ∃ u, unit = [u] ∧ isUnit u = true)
    (hrest : Breaks rest) :
    Lexer.Reads (p.text ++ (unit ++ rest))
      [.number (if unit.isEmpty then .ofReal (Numeral.value p.text)
        else .ofImaginary (Numeral.value p.text))] rest := by
  have hsuffix : Lexer.suffixPart (unit ++ rest) = unit := by
    rcases hunit with rfl | ⟨u, rfl, hu⟩
    · exact hrest.suffixPart_eq_nil
    · exact Lexer.suffixPart_cons hu hrest.head_isNameChar
  have hstops : p.Stops (unit ++ rest) := by
    rcases hunit with rfl | ⟨u, rfl, hu⟩
    · exact hrest.stops p
    · exact Lexer.stops_of_isUnit p hu rest
  have hread := Lexer.Reads.numeral hp hnumeral hstops
  rwa [hsuffix, List.drop_left] at hread

/-- What an exponent mark is left as, with a blank behind it or behind its sign: the numeral
ends before it, and it is a name. -/
theorem reads_cutOff {p : Parts} (hp : p.Valid) (hnumeral : p.isNumeral = true) {m : Char}
    (hm : isExponentMark m = true) {rest : List Char} (hrest : blankAhead rest = true) :
    Lexer.Reads (p.text ++ (m :: rest))
      [.number (.ofReal (Numeral.value p.text)), .name (String.ofList [m])] rest := by
  obtain ⟨b, ds, hb, hcases⟩ := blankAhead_cases hrest
  have hname : ∀ c ∈ rest.head?, isNameChar c = false := by
    rcases hcases with rfl | ⟨s, hs, rfl⟩
    · exact forall_head?_cons.mpr (isNameChar_of_isBlank hb)
    · refine forall_head?_cons.mpr ?_
      rcases isSign_iff.mp hs with rfl | rfl <;> decide
  -- no digit follows the mark or its sign
  have hcut : exponentPart (m :: rest) = [] := by
    rcases hcases with rfl | ⟨s, hs, rfl⟩
    · simp [exponentPart, signPart, isSign_of_isBlank hb, isDigit_of_isBlank hb]
    · simp [exponentPart, signPart, hs, isDigit_of_isBlank hb]
  have hstops : p.Stops (m :: rest) :=
    ⟨forall_head?_cons.mpr (isDigit_of_isExponentMark hm),
      forall_head?_cons.mpr (isPoint_of_isExponentMark hm), fun _ => hcut⟩
  have hsuffix : Lexer.suffixPart (m :: rest) = [] := by
    refine Lexer.suffixPart_of_head (forall_head?_cons.mpr ?_)
    rcases isExponentMark_iff.mp hm with rfl | rfl <;> decide
  have hstart : isNameStart m = true := by
    rcases isExponentMark_iff.mp hm with rfl | rfl <;> decide
  have hnumber := Lexer.Reads.numeral hp hnumeral hstops
  rw [hsuffix] at hnumber
  have hmark := Lexer.Reads.letter (isDigit_of_isExponentMark hm)
    (isPoint_of_isExponentMark hm) hstart hname
  exact hnumber.trans hmark

/-! ### Terms -/

/-- A term has at most one sign, its digits are a numeral, and it has at most one unit; a sign
alone is no term. -/
structure Term.Valid (t : Term) : Prop where
  sign : t.sign = [] ∨ ∃ s, t.sign = [s] ∧ isSign s = true
  digits : t.digits = [] ∨ ∃ p : Parts, p.Valid ∧ p.isNumeral = true ∧ p.text = t.digits
  unit : t.unit = [] ∨ ∃ u, t.unit = [u] ∧ isUnit u = true
  complete : t.digits = [] → t.unit ≠ []

/-- How a sign is read. -/
def signKind (c : Char) : Lexeme.Kind := if c = '-' then .mark .minus else .mark .plus

/-- The lexemes of a term: its sign, if any, and what is left of it. -/
def Term.kinds (t : Term) : List Lexeme.Kind := t.sign.map signKind ++ [t.operandKind]

/-- Terms one after the other.  Each but the first has a sign; the flag tells whether the first
needs one. -/
structure Row (signed : Bool) (first : Term) (more : List Term) : Prop where
  valid : first.Valid
  sign : signed = true → first.sign ≠ []
  more : ∀ t ∈ more, t.Valid ∧ t.sign ≠ []

/-- A term in front of terms that start with a sign. -/
theorem Row.cons {signed : Bool} {t first : Term} {more : List Term} (ht : t.Valid)
    (hsign : signed = true → t.sign ≠ []) (h : Row true first more) :
    Row signed t (first :: more) :=
  ⟨ht, hsign, List.forall_mem_cons.mpr ⟨⟨h.valid, h.sign rfl⟩, h.more⟩⟩

theorem unitPart_cases (cs : List Char) :
    unitPart cs = [] ∨ ∃ u, unitPart cs = [u] ∧ isUnit u = true := by
  cases cs with
  | nil => exact .inl rfl
  | cons c cs =>
    rw [unitPart]
    split
    · next h => exact .inr ⟨c, rfl, h⟩
    · exact .inl rfl

theorem unitPart_isPrefix (cs : List Char) : unitPart cs <+: cs := by
  cases cs with
  | nil => exact List.prefix_refl _
  | cons c cs =>
    rw [unitPart]
    split
    · exact ⟨cs, rfl⟩
    · exact List.nil_prefix

theorem leading_isPrefix (cs : List Char) : leading cs <+: cs := by
  rw [leading]
  split
  · exact text_parts_isPrefix cs
  · exact List.nil_prefix

/-- A text starts with its longest term. -/
theorem text_leadingTerm_append (cs : List Char) :
    (leadingTerm cs).text ++ cs.drop (leadingTerm cs).text.length = cs := by
  have hsign : signPart cs <+: cs := signPart_isPrefix cs
  have hdigits := append_isPrefix hsign (leading_isPrefix _)
  have hunit := append_isPrefix hdigits (unitPart_isPrefix _)
  rw [List.length_append] at hunit
  exact List.prefix_iff_eq_append.mp hunit

theorem leading_cases (cs : List Char) :
    leading cs = [] ∨ ∃ p : Parts, p.Valid ∧ p.isNumeral = true ∧ p.text = leading cs := by
  rw [leading]
  split
  · next h => exact .inr ⟨parts cs, valid_parts cs, h, rfl⟩
  · exact .inl rfl

theorem valid_leadingTerm {cs : List Char} (h : (leadingTerm cs).isComplete = true) :
    (leadingTerm cs).Valid where
  sign := signPart_cases cs
  digits := leading_cases _
  unit := unitPart_cases _
  complete hdigits := by
    rw [Term.isComplete, hdigits] at h
    exact List.isEmpty_eq_false_iff.mp (by simpa using h)

/-- A unit alone stands where it stood. -/
theorem reads_operand_of_unit {cs rest tail : List Char} {u : Char} (hu : isUnit u = true)
    (h : normalFrom false cs = u :: rest) (hrest : ∀ c ∈ rest.head?, isSign c = true)
    (htail : Breaks tail) :
    ∃ cs', normalFrom false cs' = rest ∧ tightExponents cs = tightExponents cs' ∧
      Lexer.Reads (cs ++ tail) [.name (String.ofList [u])] (cs' ++ tail) := by
  obtain ⟨cs', rfl, hcs'⟩ := exists_cons_of_unit h hu
  have hbreaks : Breaks (cs' ++ tail) := htail.of_normalFrom (by rwa [hcs'])
  exact ⟨cs', hcs', tightExponents_of_not_mark (isExponentMark_of_isUnit hu) cs',
    reads_unit hu hbreaks⟩

/-- What is left of a term behind its sign is read whole, or a blank beside the sign of its
exponent cuts it off. -/
theorem reads_operand {t : Term} (ht : t.Valid) {cs rest tail : List Char}
    (h : normalFrom false cs = t.digits ++ (t.unit ++ rest))
    (hrest : ∀ c ∈ rest.head?, isSign c = true) (htail : Breaks tail) :
    (∃ cs', normalFrom false cs' = rest ∧ tightExponents cs = tightExponents cs' ∧
      Lexer.Reads (cs ++ tail) [t.operandKind] (cs' ++ tail)) ∨
    tightExponents cs = false ∧ ∃ t' : Term, t'.Valid ∧ t'.sign = t.sign ∧ ∃ name after,
      Lexer.Reads (cs ++ tail) [t'.operandKind, .name name] after := by
  obtain ⟨sign, digits, unit⟩ := t
  rcases ht.digits with rfl | ⟨p, hp, hnumeral, rfl⟩
  · -- the unit alone
    rcases ht.unit with rfl | ⟨u, rfl, hu⟩
    · exact absurd rfl (ht.complete rfl)
    · exact .inl (reads_operand_of_unit hu h hrest htail)
  · rcases split_of_normalFrom hp h with ⟨ds, cs₁, rfl, hds, hcs₁⟩ |
      ⟨ds, m, cs₁, rfl, hds, hm, hahead⟩
    · -- the numeral stood in the text as it is
      left
      obtain ⟨q, hq, rfl, hqNumeral, hvalue⟩ := exists_parts_of_map hp hds
      rw [hnumeral] at hqNumeral
      obtain ⟨cs', rfl, hcs'⟩ : ∃ cs', cs₁ = unit ++ cs' ∧ normalFrom false cs' = rest := by
        rcases ht.unit with rfl | ⟨u, rfl, hu⟩
        · exact ⟨cs₁, rfl, hcs₁⟩
        · exact exists_cons_of_unit hcs₁ hu
      have hunitMark : ∀ d ∈ unit, isExponentMark d = false := by
        rcases ht.unit with rfl | ⟨u, rfl, hu⟩
        · exact fun d hd => nomatch hd
        · intro d hd
          obtain rfl := List.mem_singleton.mp hd
          exact isExponentMark_of_isUnit hu
      have hbreaks : Breaks (cs' ++ tail) := htail.of_normalFrom (by rwa [hcs'])
      refine ⟨cs', hcs', ?_, ?_⟩
      · rw [tightExponents_text_append hq, tightExponents_append hunitMark]
      · have hread := reads_numeral hq hqNumeral ht.unit hbreaks
        rw [Term.operandKind, List.isEmpty_eq_false_iff.mpr (hp.text_ne_nil hnumeral),
          List.append_assoc, List.append_assoc,
          ← hvalue]
        exact hread
    · -- the exponent is cut off
      right
      have hmantissa : (⟨p.whole, p.point, []⟩ : Parts).Valid := ⟨hp.whole, hp.point, .inl rfl⟩
      have hds' : ds.map pointForComma = (⟨p.whole, p.point, []⟩ : Parts).text := by
        rw [hds, Parts.text, List.append_nil]
      obtain ⟨q, hq, rfl, hqNumeral, -⟩ := exists_parts_of_map hmantissa hds'
      have hqNumeral' : q.isNumeral = true := hqNumeral.trans hnumeral
      have hahead' : blankAhead (cs₁ ++ tail) = true := blankAhead_append hahead tail
      refine ⟨?_, ⟨sign, q.text, []⟩, ⟨ht.sign, .inr ⟨q, hq, hqNumeral', rfl⟩, .inl rfl, ?_⟩, rfl,
        String.ofList [m], cs₁ ++ tail, ?_⟩
      · rw [tightExponents_text_append hq, tightExponents, hm, hahead]
        rfl
      · exact fun hnil => absurd hnil (hq.text_ne_nil hqNumeral')
      · have hread := reads_cutOff hq hqNumeral' hm hahead'
        rw [Term.operandKind, List.isEmpty_eq_false_iff.mpr (hq.text_ne_nil hqNumeral'),
          List.append_assoc]
        exact hread

theorem reads_trimStart (cs tail : List Char) :
    Lexer.Reads (cs ++ tail) [] (trimStart cs ++ tail) := by
  have hblanks : Lexer.Reads (cs.takeWhile isBlank ++ (trimStart cs ++ tail)) []
      (trimStart cs ++ tail) := Lexer.Reads.blanks (fun c hc => List.mem_takeWhile_imp hc) _
  rwa [← List.append_assoc, takeWhile_append_trimStart] at hblanks

/-- A sign is read with the blanks around it. -/
theorem reads_sign {sign cs rest : List Char} (tail : List Char)
    (hsign : sign = [] ∨ ∃ s, sign = [s] ∧ isSign s = true)
    (h : normalFrom false cs = sign ++ rest) :
    ∃ cs', normalFrom false cs' = rest ∧ tightExponents cs = tightExponents cs' ∧
      Lexer.Reads (cs ++ tail) (sign.map signKind) (cs' ++ tail) := by
  rcases hsign with rfl | ⟨s, rfl, hs⟩
  · exact ⟨cs, h, rfl, .refl _⟩
  · obtain ⟨cs', htrim, hcs'⟩ := trimStart_of_normalFrom h hs
    have hmark : isExponentMark s = false := by
      rcases isSign_iff.mp hs with rfl | rfl <;> decide
    have htight : tightExponents cs = tightExponents (trimStart cs') := by
      rw [← tightExponents_trimStart cs, htrim, tightExponents_of_not_mark hmark,
        tightExponents_trimStart]
    have hread : Lexer.Reads (s :: (cs' ++ tail)) [signKind s] (cs' ++ tail) := by
      rcases isSign_iff.mp hs with rfl | rfl
      · exact .plus _
      · exact .minus _
    have hbefore := reads_trimStart cs tail
    rw [htrim] at hbefore
    exact ⟨trimStart cs', hcs', htight, (hbefore.trans hread).trans (reads_trimStart cs' tail)⟩

/-- A term of a literal is read whole, or a blank beside the sign of its exponent cuts it
off. -/
theorem reads_term {t : Term} (ht : t.Valid) {cs rest tail : List Char}
    (h : normalFrom false cs = t.text ++ rest)
    (hrest : ∀ c ∈ rest.head?, isSign c = true) (htail : Breaks tail) :
    (∃ cs', normalFrom false cs' = rest ∧ tightExponents cs = tightExponents cs' ∧
      Lexer.Reads (cs ++ tail) t.kinds (cs' ++ tail)) ∨
    tightExponents cs = false ∧ ∃ t' : Term, t'.Valid ∧ t'.sign = t.sign ∧ ∃ name after,
      Lexer.Reads (cs ++ tail) (t'.kinds ++ [.name name]) after := by
  rw [Term.text, List.append_assoc, List.append_assoc] at h
  obtain ⟨cs₁, hcs₁, htight, hsign⟩ := reads_sign tail ht.sign h
  rcases reads_operand ht hcs₁ hrest htail with ⟨cs', hcs', htight', hread⟩ |
    ⟨hloose, t', ht', hsame, name, after, hread⟩
  · exact .inl ⟨cs', hcs', htight.trans htight', hsign.trans hread⟩
  · refine .inr ⟨htight.trans hloose, t', ht', hsame, name, after, ?_⟩
    rw [Term.kinds, hsame, List.append_assoc]
    exact hsign.trans hread

theorem fits_iff {t : Term} {signed : Bool} :
    t.fits signed = true ↔ t.isComplete = true ∧ (signed = true → t.sign ≠ []) := by
  cases signed <;> simp [Term.fits]

theorem normalFrom_eq_nil {cs : List Char} (h : normalFrom false cs = []) : cs = [] := by
  cases cs with
  | nil => rfl
  | cons c cs =>
    exfalso
    cases hc : isBlank c with
    | false =>
      rw [normalFrom_of_not_blank hc] at h
      cases h
    | true =>
      rcases normalFrom_of_blank hc cs with ⟨_, hkept⟩ | ⟨_, _, -, -, hdropped⟩
      · rw [hkept] at h
        cases h
      · rw [hdropped] at h
        cases h

/-- Further terms start with a sign. -/
theorem head_of_termsFrom? {cs : List Char} {ts : List Term} (h : termsFrom? true cs = some ts) :
    ∀ c ∈ cs.head?, isSign c = true := by
  rw [termsFrom?] at h
  split at h
  · next hfits =>
    have hne : signPart cs ≠ [] := (fits_iff.mp hfits).2 rfl
    cases cs with
    | nil => exact absurd rfl hne
    | cons c cs =>
      rw [forall_head?_cons]
      by_contra hc
      rw [signPart, if_neg hc] at hne
      exact hne rfl
  · exact absurd h (by simp)

/-- What is read as terms is a row of them. -/
theorem row_of_termsFrom? (signed : Bool) (n : List Char) : ∀ ts : List Term,
    termsFrom? signed n = some ts → ∃ t more, ts = t :: more ∧ Row signed t more := by
  induction signed, n using termsFrom?.induct with
  | case1 signed n hfits hlast =>
    intro ts hts
    rw [termsFrom?, dif_pos hfits, if_pos hlast] at hts
    obtain ⟨hcomplete, hsign⟩ := fits_iff.mp hfits
    exact ⟨_, [], (Option.some.inj hts).symm, valid_leadingTerm hcomplete, hsign,
      fun t ht => nomatch ht⟩
  | case2 signed n hfits hmore ih =>
    intro ts hts
    rw [termsFrom?, dif_pos hfits, if_neg hmore] at hts
    obtain ⟨us, hus, rfl⟩ := Option.map_eq_some_iff.mp hts
    obtain ⟨hcomplete, hsign⟩ := fits_iff.mp hfits
    obtain ⟨t, more, rfl, hrow⟩ := ih us hus
    exact ⟨leadingTerm n, t :: more, rfl, hrow.cons (valid_leadingTerm hcomplete) hsign⟩
  | case3 signed n hfits =>
    intro ts hts
    rw [termsFrom?, dif_neg hfits] at hts
    cases hts

/-- The lexemes of a text are those of a row of terms, and then a name. -/
def CutOff (signed : Bool) (cs : List Char) : Prop :=
  ∃ t more name after, Row signed t more ∧
    Lexer.Reads cs ((t :: more).flatMap Term.kinds ++ [.name name]) after

/-- **A literal among lexemes.**  Its lexemes are those of its terms, if no blank stands beside
the sign of a power of ten.  If there is one, then up to the first such place the lexemes are
again those of some terms, and a name is next. -/
theorem reads_terms {tail : List Char} (htail : Breaks tail) (signed : Bool) (n : List Char) :
    ∀ (cs : List Char) (ts : List Term), normalFrom false cs = n → termsFrom? signed n = some ts →
      tightExponents cs = true ∧ Lexer.Reads (cs ++ tail) (ts.flatMap Term.kinds) tail ∨
        tightExponents cs = false ∧ CutOff signed (cs ++ tail) := by
  induction signed, n using termsFrom?.induct with
  | case1 signed n hfits hlast =>
    -- the last term
    intro cs ts hcs hts
    rw [termsFrom?, dif_pos hfits, if_pos hlast] at hts
    obtain rfl := Option.some.inj hts
    obtain ⟨hcomplete, hsign⟩ := fits_iff.mp hfits
    have htext : n = (leadingTerm n).text ++ [] := by
      rw [← List.drop_eq_nil_of_le hlast, text_leadingTerm_append]
    have hnil : ∀ c ∈ ([] : List Char).head?, isSign c = true := fun c hc => nomatch hc
    rcases reads_term (valid_leadingTerm hcomplete) (hcs.trans htext) hnil htail with
      ⟨cs', hcs', htight, hread⟩ | ⟨hloose, t', ht', hsame, name, after, hread⟩
    · obtain rfl := normalFrom_eq_nil hcs'
      exact .inl ⟨htight, by rwa [List.flatMap_singleton]⟩
    · have hrow : Row signed t' [] := ⟨ht', hsame ▸ hsign, fun t ht => nomatch ht⟩
      exact .inr ⟨hloose, t', [], name, after, hrow, by rwa [List.flatMap_singleton]⟩
  | case2 signed n hfits hmore ih =>
    -- a term with others behind it
    intro cs ts hcs hts
    rw [termsFrom?, dif_pos hfits, if_neg hmore] at hts
    obtain ⟨us, hus, rfl⟩ := Option.map_eq_some_iff.mp hts
    obtain ⟨hcomplete, hsign⟩ := fits_iff.mp hfits
    have htext := (text_leadingTerm_append n).symm
    rcases reads_term (valid_leadingTerm hcomplete) (hcs.trans htext) (head_of_termsFrom? hus)
      htail with ⟨cs', hcs', htight, hread⟩ | ⟨hloose, t', ht', hsame, name, after, hread⟩
    · rcases ih cs' us hcs' hus with
        ⟨htight', hread'⟩ | ⟨hloose, t', more', name, after, hrow', hread'⟩
      · exact .inl ⟨htight.trans htight', by rw [List.flatMap_cons]; exact hread.trans hread'⟩
      · refine .inr ⟨htight.trans hloose, leadingTerm n, t' :: more', name, after,
          hrow'.cons (valid_leadingTerm hcomplete) hsign, ?_⟩
        rw [List.flatMap_cons, List.append_assoc]
        exact hread.trans hread'
    · -- the terms behind it do not matter
      have hrow : Row signed t' [] := ⟨ht', hsame ▸ hsign, fun t ht => nomatch ht⟩
      exact .inr ⟨hloose, t', [], name, after, hrow, by rwa [List.flatMap_singleton]⟩
  | case3 signed n hfits =>
    intro cs ts hcs hts
    rw [termsFrom?, dif_neg hfits] at hts
    cases hts

/-- A literal among lexemes, with the blanks around it. -/
theorem reads_literal {cs tail : List Char} {ts : List Term}
    (h : terms? (normalize cs) = some ts) (htail : Breaks tail) :
    tightExponents (trim cs) = true ∧ Lexer.Reads (cs ++ tail) (ts.flatMap Term.kinds) tail ∨
      tightExponents (trim cs) = false ∧ CutOff false (cs ++ tail) := by
  obtain ⟨bs, hbs, htrim⟩ := exists_trimEnd_append (trimStart cs)
  have hcs : trimStart cs ++ tail = trim cs ++ (bs ++ tail) := by
    rw [trim, ← List.append_assoc, htrim]
  have hstart := reads_trimStart cs tail
  have hbreaks : Breaks (bs ++ tail) := by
    cases bs with
    | nil => exact htail
    | cons b bs => exact forall_head?_cons.mpr (.inl (hbs b (List.mem_cons_self ..)))
  rw [hcs] at hstart
  rcases reads_terms hbreaks false (normalize cs) (trim cs) ts rfl h with
    ⟨htight, hread⟩ | ⟨hloose, t, more, name, after, hrow, hread⟩
  · have hend := hread.trans (Lexer.Reads.blanks hbs tail)
    rw [List.append_nil] at hend
    exact .inl ⟨htight, hstart.trans hend⟩
  · exact .inr ⟨hloose, t, more, name, after, hrow, hstart.trans hread⟩

end Argand.Literal
