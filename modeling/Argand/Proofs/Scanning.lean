import Argand.Formula.Lexer
import Argand.Proofs.Numerals

/-!
# Lexemes one after the other

A text is cut into lexemes from left to right.  What is cut off its start does not depend on
the column, so it can be said of the text alone which kinds of lexemes come first and what is
left then.

## Main definitions

* `Lexer.Reads cs ks rest` — the lexemes of `cs` are of the kinds `ks`, and then those of
  `rest`.

## Main results

* `Lexer.Reads.trans` — **texts are read one after the other.**
* `Lexer.Reads.name`, `Lexer.Reads.numeral` — a name or a numeral in front of what does not go
  on with it.
* `Lexer.Reads.exists_scan`, `Lexer.Reads.exists_append` — the lexemes of a text of which all or
  the start is known.
* `Lexer.longest?_of_mem_scan` — every lexeme is the longest that starts at its column.
-/

namespace Argand

open Text Numeral

namespace Lexer

/-! ### Lexemes one after the other -/

/-- The first step of cutting a text up. -/
theorem scan_eq (column : Nat) (cs : List Char) :
    scan column cs =
      match trimStart cs with
      | [] => .ok []
      | c :: rest =>
        match longest? (c :: rest) with
        | none => .error (column + indent cs, c)
        | some (kind, width) =>
          (scan (column + indent cs + width) ((c :: rest).drop width)).map
            (⟨kind, column + indent cs, width⟩ :: ·) := by
  rw [scan]
  split
  · next h => rw [h]
  · next c rest h =>
    rw [h]
    dsimp only
    split
    · next h => rw [h]
    · next kind width h => rw [h]

/-- The lexemes of `cs` are of the kinds `ks`, and then those of `rest`. -/
def Reads (cs : List Char) (ks : List Lexeme.Kind) (rest : List Char) : Prop :=
  ∀ column, ∃ ls column', ls.map (·.kind) = ks ∧
    scan column cs = (scan column' rest).map (ls ++ ·)

namespace Reads

variable {cs ds rest : List Char} {js ks : List Lexeme.Kind}

theorem refl (cs : List Char) : Reads cs [] cs := by
  intro column
  refine ⟨[], column, rfl, ?_⟩
  cases scan column cs <;> rfl

theorem trans (h : Reads cs js ds) (h' : Reads ds ks rest) : Reads cs (js ++ ks) rest := by
  intro column
  obtain ⟨ls, column', hls, hscan⟩ := h column
  obtain ⟨ls', column'', hls', hscan'⟩ := h' column'
  refine ⟨ls ++ ls', column'', by rw [List.map_append, hls, hls'], ?_⟩
  rw [hscan, hscan']
  cases scan column'' rest with
  | error e => rfl
  | ok lexemes => exact congrArg Except.ok (List.append_assoc ls ls' lexemes).symm

/-- A blank is skipped. -/
theorem blank {c : Char} (hc : isBlank c = true) (cs : List Char) : Reads (c :: cs) [] cs := by
  intro column
  refine ⟨[], column + 1, rfl, ?_⟩
  have hindent : indent (c :: cs) = indent cs + 1 := by
    simp [indent, hc]
  have hstart : column + indent (c :: cs) = column + 1 + indent cs := by omega
  have hscan : scan column (c :: cs) = scan (column + 1) cs := by
    rw [scan_eq, scan_eq, trimStart_cons_of_blank hc, hstart]
  rw [hscan]
  cases scan (column + 1) cs <;> rfl

/-- Blanks are skipped. -/
theorem blanks {bs : List Char} (hbs : ∀ c ∈ bs, isBlank c = true) (cs : List Char) :
    Reads (bs ++ cs) [] cs := by
  induction bs with
  | nil => exact refl cs
  | cons c bs ih =>
    have hc := hbs c (List.mem_cons_self ..)
    have hrest := ih fun d hd => hbs d (List.mem_cons_of_mem _ hd)
    exact (blank hc _).trans hrest

/-- The longest lexeme at the start is read. -/
theorem lexeme {cs : List Char} {k : Lexeme.Kind} {width : Nat}
    (hcs : ∀ c ∈ cs.head?, isBlank c = false) (h : longest? cs = some (k, width)) :
    Reads cs [k] (cs.drop width) := by
  intro column
  cases cs with
  | nil =>
    have hnil : longest? [] = none := rfl
    exact absurd (hnil.symm.trans h) (by simp)
  | cons c cs =>
    have hc := hcs c rfl
    have hindent : indent (c :: cs) = 0 := by simp [indent, hc]
    -- no blank is skipped, so the lexeme starts at the column itself
    refine ⟨[⟨k, column, width⟩], column + width, rfl, ?_⟩
    rw [scan_eq, trimStart_cons_of_not_blank hc, hindent]
    dsimp only
    rw [h]
    rfl

end Reads

/-! ### Single lexemes -/

/-- A text that starts with neither a digit nor a point does not start with a numeral. -/
theorem leading_eq_nil {c : Char} (hdigit : isDigit c = false) (hpoint : isPoint c = false)
    (cs : List Char) : leading (c :: cs) = [] := by
  have hwhole : (c :: cs).takeWhile isDigit = [] := by simp [hdigit]
  have hnumeral : (parts (c :: cs)).isNumeral = false := by
    simp [Parts.isNumeral, parts, hwhole, pointPart, hpoint]
  rw [leading, hnumeral]
  rfl

theorem number?_eq_none {c : Char} (hdigit : isDigit c = false) (hpoint : isPoint c = false)
    (cs : List Char) : number? (c :: cs) = none := by
  rw [number?, leading_eq_nil hdigit hpoint]
  rfl

/-- A sign, an opening and a closing parenthesis are lexemes of their own. -/
theorem longest?_plus (cs : List Char) : longest? ('+' :: cs) = some (.mark .plus, 1) := by
  rw [longest?, number?_eq_none (by decide) (by decide)]
  rfl

theorem longest?_minus (cs : List Char) : longest? ('-' :: cs) = some (.mark .minus, 1) := by
  rw [longest?, number?_eq_none (by decide) (by decide)]
  rfl

theorem longest?_leftParen (cs : List Char) :
    longest? ('(' :: cs) = some (.mark .leftParen, 1) := by
  rw [longest?, number?_eq_none (by decide) (by decide)]
  rfl

theorem longest?_rightParen (cs : List Char) :
    longest? (')' :: cs) = some (.mark .rightParen, 1) := by
  rw [longest?, number?_eq_none (by decide) (by decide)]
  rfl

/-- A name is read in front of a text that does not go on with it. -/
theorem longest?_name {c : Char} {cs rest : List Char} (hdigit : isDigit c = false)
    (hpoint : isPoint c = false) (hc : isNameStart c = true)
    (hcs : ∀ d ∈ cs, isNameChar d = true) (hrest : ∀ d ∈ rest.head?, isNameChar d = false) :
    longest? (c :: (cs ++ rest)) = some (.name (String.ofList (c :: cs)), cs.length + 1) := by
  rw [longest?, number?_eq_none hdigit hpoint, name?, takeWhile_append_stop hcs hrest, hc]
  rfl

/-- A numeral is read in front of a text that does not go on with it, with the unit if there
is one. -/
theorem longest?_numeral {p : Parts} (hp : p.Valid) (hnumeral : p.isNumeral = true)
    {rest : List Char} (hrest : p.Stops rest) :
    longest? (p.text ++ rest) =
      some (.number (if (suffixPart rest).isEmpty then .ofReal (Numeral.value p.text)
        else .ofImaginary (Numeral.value p.text)), p.text.length + (suffixPart rest).length) := by
  have hleading : leading (p.text ++ rest) = p.text := by
    rw [leading, parts_append hp hrest, if_pos hnumeral]
  have hne : p.text.isEmpty = false := by
    rw [← hleading, List.isEmpty_eq_false_iff, ← List.length_pos_iff]
    exact length_leading_pos (by rw [parts_append hp hrest, hnumeral])
  rw [longest?, number?, hleading, List.drop_left, hne]
  rfl

namespace Reads

theorem plus (cs : List Char) : Reads ('+' :: cs) [.mark .plus] cs :=
  lexeme (forall_head?_cons.mpr (by decide)) (longest?_plus cs)

theorem minus (cs : List Char) : Reads ('-' :: cs) [.mark .minus] cs :=
  lexeme (forall_head?_cons.mpr (by decide)) (longest?_minus cs)

theorem leftParen (cs : List Char) : Reads ('(' :: cs) [.mark .leftParen] cs :=
  lexeme (forall_head?_cons.mpr (by decide)) (longest?_leftParen cs)

theorem rightParen (cs : List Char) : Reads (')' :: cs) [.mark .rightParen] cs :=
  lexeme (forall_head?_cons.mpr (by decide)) (longest?_rightParen cs)

theorem name {c : Char} {cs rest : List Char} (hdigit : isDigit c = false)
    (hpoint : isPoint c = false) (hc : isNameStart c = true)
    (hcs : ∀ d ∈ cs, isNameChar d = true) (hrest : ∀ d ∈ rest.head?, isNameChar d = false) :
    Reads (c :: (cs ++ rest)) [.name (String.ofList (c :: cs))] rest := by
  have hblank := isBlank_of_isNameChar (isNameChar_of_isNameStart hc)
  have hread := lexeme (forall_head?_cons.mpr hblank)
    (longest?_name hdigit hpoint hc hcs hrest)
  rwa [List.drop_succ_cons, List.drop_left] at hread

/-- A letter that stands alone is a name. -/
theorem letter {c : Char} {rest : List Char} (hdigit : isDigit c = false)
    (hpoint : isPoint c = false) (hc : isNameStart c = true)
    (hrest : ∀ d ∈ rest.head?, isNameChar d = false) :
    Reads (c :: rest) [.name (String.ofList [c])] rest := by
  have hread : Reads (c :: ([] ++ rest)) [.name (String.ofList [c])] rest :=
    name hdigit hpoint hc (by simp) hrest
  exact hread

/-- A numeral is read with the letter of the imaginary unit behind it. -/
theorem numeral {p : Parts} (hp : p.Valid) (hnumeral : p.isNumeral = true) {rest : List Char}
    (hrest : p.Stops rest) :
    Reads (p.text ++ rest)
      [.number (if (suffixPart rest).isEmpty then .ofReal (Numeral.value p.text)
        else .ofImaginary (Numeral.value p.text))]
      (rest.drop (suffixPart rest).length) := by
  have hhead : ∀ c ∈ (p.text ++ rest).head?, isBlank c = false := by
    obtain ⟨c, cs, htext, hblank⟩ := hp.exists_text_eq_cons hnumeral
    rw [htext]
    exact forall_head?_cons.mpr hblank
  have hread := lexeme hhead (longest?_numeral hp hnumeral hrest)
  rwa [List.drop_length_add_append] at hread

/-- What is read to its end. -/
theorem exists_scan {cs : List Char} {ks : List Lexeme.Kind} (h : Reads cs ks []) :
    ∃ lexemes, scan 0 cs = .ok lexemes ∧ lexemes.map (·.kind) = ks := by
  obtain ⟨lexemes, column, hkinds, hscan⟩ := h 0
  refine ⟨lexemes, ?_, hkinds⟩
  rw [hscan, scan_eq]
  exact congrArg Except.ok (List.append_nil lexemes)

/-- What is read at first is among all that is read. -/
theorem exists_append {cs rest : List Char} {ks : List Lexeme.Kind}
    (h : Reads cs ks rest) {lexemes : List Lexeme} (hscan : scan 0 cs = .ok lexemes) :
    ∃ more, lexemes.map (·.kind) = ks ++ more := by
  obtain ⟨first, column, hkinds, hfirst⟩ := h 0
  rw [hfirst] at hscan
  cases hmore : scan column rest with
  | error e =>
    rw [hmore] at hscan
    cases hscan
  | ok others =>
    rw [hmore] at hscan
    refine ⟨others.map (·.kind), ?_⟩
    rw [← Except.ok.inj hscan, List.map_append, hkinds]

end Reads

/-! ### Every lexeme in its place -/

/-- The text without its leading blanks starts where the blanks end. -/
theorem drop_indent (cs : List Char) : cs.drop (indent cs) = trimStart cs := by
  have h : (cs.takeWhile isBlank ++ trimStart cs).drop (indent cs) = trimStart cs := List.drop_left
  rwa [takeWhile_append_trimStart] at h

/-- Every lexeme is the longest that starts at its column. -/
theorem longest?_of_mem_scan {column : Nat} {cs : List Char} {lexemes : List Lexeme}
    (h : scan column cs = .ok lexemes) {l : Lexeme} (hl : l ∈ lexemes) :
    column ≤ l.column ∧ longest? (cs.drop (l.column - column)) = some (l.kind, l.width) := by
  -- by the length of the text: what follows a lexeme is shorter
  induction hlen : cs.length using Nat.strongRecOn generalizing column cs lexemes with
  | ind m ih =>
    rw [scan_eq] at h
    have hdrop := drop_indent cs
    cases hcs : trimStart cs with
    | nil =>
      rw [hcs] at h
      obtain rfl := Except.ok.inj h
      cases hl
    | cons c rest =>
      rw [hcs] at h hdrop
      dsimp only at h
      cases hlongest : longest? (c :: rest) with
      | none =>
        rw [hlongest] at h
        cases h
      | some found =>
        obtain ⟨kind, width⟩ := found
        rw [hlongest] at h
        dsimp only at h
        cases hscan : scan (column + indent cs + width) ((c :: rest).drop width) with
        | error e =>
          rw [hscan] at h
          cases h
        | ok others =>
          rw [hscan] at h
          obtain rfl := Except.ok.inj h
          have hshorter := length_trimStart_le cs
          rw [hcs] at hshorter
          have hpos := width_pos hlongest
          have hlt : ((c :: rest).drop width).length < m := by
            rw [List.length_drop]
            rw [List.length_cons] at hshorter ⊢
            omega
          rcases List.mem_cons.mp hl with rfl | hl
          · refine ⟨Nat.le_add_right .., ?_⟩
            rw [Nat.add_sub_cancel_left, hdrop, hlongest]
          · obtain ⟨hcolumn, hrest⟩ := ih _ hlt hscan hl rfl
            refine ⟨by omega, ?_⟩
            rw [← hdrop, List.drop_drop, List.drop_drop] at hrest
            rwa [show indent cs + (width + (l.column - (column + indent cs + width))) =
              l.column - column by omega] at hrest

/-- A name is made of the characters it is read from, the first of which can start it. -/
theorem take_of_longest?_name {cs : List Char} {text : String} {width : Nat}
    (h : longest? cs = some (.name text, width)) :
    cs.take width = text.toList ∧ ∃ c rest, text.toList = c :: rest ∧ isNameStart c = true := by
  have hname : name? cs = some (.name text, width) := by
    rw [longest?, Option.or_eq_some_iff, Option.or_eq_some_iff] at h
    rcases h with h | ⟨-, h | ⟨-, h⟩⟩
    · simp [number?] at h
    · exact h
    · simp at h
  cases cs with
  | nil => cases hname
  | cons c cs =>
    simp only [name?, Option.ite_none_right_eq_some, Option.some.injEq, Prod.mk.injEq,
      Lexeme.Kind.name.injEq] at hname
    obtain ⟨hc, rfl, rfl⟩ := hname
    rw [String.toList_ofList, List.take_succ_cons]
    refine ⟨congrArg (c :: ·) ?_, c, _, rfl, hc⟩
    exact (List.prefix_iff_eq_take.mp (List.takeWhile_prefix _)).symm

end Lexer

end Argand
