import Argand.Proofs.Scanning

/-!
# How lexemes are spelled

A lexeme is a numeral, perhaps with a unit behind it, a name or a mark.  Which of these stands at
a place is said here without a scanner.  The scanner takes the longest that stands there.

## Main definitions

* `Lexer.Spells slice rest k` — a slice spells a lexeme of kind `k` in front of `rest`.

## Main results

* `Lexer.spells_of_longest?`, `Lexer.Spells.exists_longest?` — **the lexeme at the start of a text
  is spelled there, and nothing longer is.**
* `Lexer.Spells.reads` — a lexeme is read again in front of a blank.
-/

namespace Argand

open Text Numeral

/-! ### Numerals that go on -/

namespace Numeral

/-- The parts of a text that is cut behind its whole part and behind its point. -/
theorem parts_eq {whole point after : List Char}
    (hwhole : (whole ++ (point ++ after)).takeWhile isDigit = whole)
    (hpoint : pointPart (point ++ after) = point) :
    parts (whole ++ (point ++ after)) = ⟨whole, point, exponentPart after⟩ := by
  have hdrop : (whole ++ (point ++ after)).drop (whole.length + point.length) = after := by
    rw [← List.append_assoc, ← List.length_append, List.drop_left]
  unfold parts
  simp only [hwhole, List.drop_left, hpoint, hdrop]

/-- The digits that an exponent ends with go on into a text. -/
theorem exponentPart_append {m : Char} {sign ds : List Char} (hm : isExponentMark m = true)
    (hsign : sign = [] ∨ ∃ s, sign = [s] ∧ isSign s = true) (hne : ds ≠ [])
    (hds : ∀ d ∈ ds, isDigit d = true) (rest : List Char) :
    exponentPart (m :: (sign ++ ds) ++ rest) = m :: (sign ++ ds) ++ rest.takeWhile isDigit := by
  have hdigits : ((sign ++ (ds ++ rest)).drop sign.length).takeWhile isDigit =
      ds ++ rest.takeWhile isDigit := by
    rw [List.drop_left, List.takeWhile_append_of_pos hds]
  have hsome : (ds ++ rest.takeWhile isDigit).isEmpty = false := by
    rw [List.isEmpty_eq_false_iff]
    exact List.append_ne_nil_of_left_ne_nil hne _
  rw [List.cons_append, List.append_assoc, exponentPart, signPart_append hsign hne hds, hdigits, hm,
    hsome]
  simp

/-- Behind a point, digits go on into a text. -/
theorem parts_append_of_point {p : Parts} (hp : p.Valid) {c : Char} {ds : List Char}
    (hpoint : p.point = c :: ds) (hc : isPoint c = true) (hds : ∀ d ∈ ds, isDigit d = true)
    (hnone : p.exponent = []) (rest : List Char) :
    parts (p.text ++ rest) = ⟨p.whole, p.point ++ rest.takeWhile isDigit,
      exponentPart (rest.dropWhile isDigit)⟩ := by
  have hdigits : ∀ d ∈ ds ++ rest.takeWhile isDigit, isDigit d = true := by
    intro d hd
    rcases List.mem_append.mp hd with hd | hd
    · exact hds d hd
    · exact List.mem_takeWhile_imp hd
  have hstop : ∀ d ∈ (rest.dropWhile isDigit).head?, isDigit d = false := by
    intro d hd
    have hnot := List.head?_dropWhile_not isDigit rest
    rwa [hd] at hnot
  have htext : p.text ++ rest =
      p.whole ++ ((c :: (ds ++ rest.takeWhile isDigit)) ++ rest.dropWhile isDigit) := by
    simp [Parts.text, hpoint, hnone, List.takeWhile_append_dropWhile]
  rw [htext, parts_eq, hpoint, List.cons_append]
  · exact takeWhile_append_stop hp.whole (forall_head?_cons.mpr (isDigit_of_isPoint hc))
  · rw [List.cons_append, pointPart, if_pos hc, takeWhile_append_stop hdigits hstop]

/-- Behind an exponent mark, digits go on into a text. -/
theorem parts_append_of_exponent {p : Parts} (hp : p.Valid) {m : Char} {sign es : List Char}
    (hexponent : p.exponent = m :: (sign ++ es)) (hm : isExponentMark m = true)
    (hsign : sign = [] ∨ ∃ s, sign = [s] ∧ isSign s = true) (hne : es ≠ [])
    (hes : ∀ e ∈ es, isDigit e = true) (rest : List Char) :
    parts (p.text ++ rest) = ⟨p.whole, p.point, p.exponent ++ rest.takeWhile isDigit⟩ := by
  have hmark : ∀ c ∈ (p.exponent ++ rest).head?, isDigit c = false ∧ isPoint c = false := by
    rw [hexponent]
    exact forall_head?_cons.mpr ⟨isDigit_of_isExponentMark hm, isPoint_of_isExponentMark hm⟩
  have htext : p.text ++ rest = p.whole ++ (p.point ++ (p.exponent ++ rest)) := by
    simp [Parts.text]
  rw [htext, parts_eq, hexponent, exponentPart_append hm hsign hne hes]
  · refine takeWhile_append_stop hp.whole ?_
    rcases hp.point with hpoint | ⟨c, ds, hpoint, hc, -⟩
    · rw [hpoint, List.nil_append]
      exact fun d hd => (hmark d hd).1
    · rw [hpoint]
      exact forall_head?_cons.mpr (isDigit_of_isPoint hc)
  · rcases hp.point with hpoint | ⟨c, ds, hpoint, hc, hds⟩
    · rw [hpoint, hexponent, List.nil_append, List.cons_append, pointPart,
        isPoint_of_isExponentMark hm]
      rfl
    · rw [hpoint, List.cons_append, pointPart, if_pos hc,
        takeWhile_append_stop hds fun d hd => (hmark d hd).1]

/-- What follows a numeral only makes its parts longer. -/
theorem Parts.Valid.exists_parts_append {p : Parts} (hp : p.Valid) (rest : List Char) :
    ∃ as bs cs, parts (p.text ++ rest) = ⟨p.whole ++ as, p.point ++ bs, p.exponent ++ cs⟩ := by
  rcases hp.exponent with hnone | ⟨m, sign, es, hexponent, hm, hsign, hne, hes⟩
  · rcases hp.point with hpoint | ⟨c, ds, hpoint, hc, hds⟩
    · -- the digits before the point go on
      have hwhole : (parts (p.whole ++ rest)).whole = p.whole ++ rest.takeWhile isDigit :=
        List.takeWhile_append_of_pos hp.whole
      refine ⟨rest.takeWhile isDigit, (parts (p.whole ++ rest)).point,
        (parts (p.whole ++ rest)).exponent, ?_⟩
      rw [Parts.text, hpoint, hnone, ← hwhole, List.append_nil, List.append_nil]
      rfl
    · refine ⟨[], rest.takeWhile isDigit, exponentPart (rest.dropWhile isDigit), ?_⟩
      rw [parts_append_of_point hp hpoint hc hds hnone, hnone, List.append_nil, List.nil_append]
  · refine ⟨[], [], rest.takeWhile isDigit, ?_⟩
    rw [parts_append_of_exponent hp hexponent hm hsign hne hes, List.append_nil, List.append_nil]

/-- The longest numeral at a place is no shorter than any that stands there. -/
theorem Parts.Valid.length_text_le {p : Parts} (hp : p.Valid) (hnumeral : p.isNumeral = true)
    (rest : List Char) : p.text.length ≤ (leading (p.text ++ rest)).length := by
  obtain ⟨as, bs, cs, hparts⟩ := hp.exists_parts_append rest
  have hlonger : (parts (p.text ++ rest)).isNumeral = true := by
    rw [hparts]
    simp only [Parts.isNumeral, Bool.or_eq_true, Bool.not_eq_true', List.isEmpty_eq_false_iff,
      decide_eq_true_eq, List.length_append] at hnumeral ⊢
    rcases hnumeral with hwhole | hpoint
    · exact .inl (List.append_ne_nil_of_left_ne_nil hwhole as)
    · exact .inr (by omega)
  rw [leading, if_pos hlonger, hparts]
  simp only [Parts.text, List.length_append]
  omega

/-- The value of a numeral is that of its parts. -/
theorem value_text {p : Parts} (hp : p.Valid) : Numeral.value p.text = p.value := by
  have hparts : parts (p.text ++ []) = p := parts_append hp ⟨by simp, by simp, fun _ => rfl⟩
  rw [List.append_nil] at hparts
  rw [Numeral.value, hparts]

end Numeral

namespace Lexer

/-! ### Characters that lexemes start with -/

/-- No letter is a digit. -/
theorem isDigit_of_isNameStart {c : Char} (h : isNameStart c = true) : isDigit c = false := by
  have hdigits : ∀ start ∈ digitZeros, start + 9 < 65 ∨ 122 < start := by decide
  have hval : c.val.toNat = c.toNat := rfl
  have hranges : (decide ('A'.val ≤ c.val ∧ c.val ≤ 'Z'.val) ||
      ('a'.val ≤ c.val && c.val ≤ 'z'.val) || c == '_') = true := h
  simp only [Bool.or_eq_true, Bool.and_eq_true, decide_eq_true_eq, beq_iff_eq,
    UInt32.le_iff_toNat_le, hval] at hranges
  have hletter : 65 ≤ c.toNat ∧ c.toNat ≤ 122 := by
    rcases hranges with (⟨hlo, hhi⟩ | ⟨hlo, hhi⟩) | rfl
    · change 65 ≤ _ at hlo
      change _ ≤ 90 at hhi
      omega
    · change 97 ≤ _ at hlo
      change _ ≤ 122 at hhi
      omega
    · decide
  rw [Bool.eq_false_iff, ne_eq]
  intro hdigit
  obtain ⟨start, hmem, hlo, hhi⟩ := exists_zero_of_isDigit hdigit
  have houtside := hdigits start hmem
  omega

theorem isPoint_of_isNameStart {c : Char} (h : isNameStart c = true) : isPoint c = false := by
  rw [Bool.eq_false_iff, ne_eq]
  intro hpoint
  rcases isPoint_iff.mp hpoint with rfl | rfl <;> exact absurd h (by decide)

/-! ### Spelling -/

/-- A slice of a text spells a lexeme in front of the rest of the text: a numeral, a numeral with
a unit from which no name goes on, a name, or a mark. -/
inductive Spells : List Char → List Char → Lexeme.Kind → Prop
  | real {p : Parts} (hp : p.Valid) (hnumeral : p.isNumeral = true) (rest : List Char) :
    Spells p.text rest (.number (.ofReal p.value))
  | imaginary {p : Parts} (hp : p.Valid) (hnumeral : p.isNumeral = true) {u : Char}
      (hu : isUnit u = true) {rest : List Char} (hrest : ∀ c ∈ rest.head?, isNameChar c = false) :
    Spells (p.text ++ [u]) rest (.number (.ofImaginary p.value))
  | name {c : Char} {cs : List Char} (hc : isNameStart c = true)
      (hcs : ∀ d ∈ cs, isNameChar d = true) (rest : List Char) :
    Spells (c :: cs) rest (.name (String.ofList (c :: cs)))
  | mark (m : Mark) (rest : List Char) : Spells m.text.toList rest (.mark m)

/-- A unit that no name goes on from belongs to the numeral before it. -/
theorem suffixPart_cases (cs : List Char) :
    suffixPart cs = [] ∨ ∃ u rest, cs = u :: rest ∧ suffixPart cs = [u] ∧ isUnit u = true ∧
      ∀ c ∈ rest.head?, isNameChar c = false := by
  cases cs with
  | nil => exact .inl rfl
  | cons u rest =>
    rw [suffixPart]
    split
    · next h =>
      rw [Bool.and_eq_true, Bool.not_eq_true', Option.any_eq_false] at h
      exact .inr ⟨u, rest, rfl, rfl, h.1, fun c hc => Bool.not_eq_true _ ▸ h.2 c hc⟩
    · exact .inl rfl

theorem suffixPart_cons {u : Char} (hu : isUnit u = true) {rest : List Char}
    (hrest : ∀ c ∈ rest.head?, isNameChar c = false) : suffixPart (u :: rest) = [u] := by
  have hnext : rest.head?.any isNameChar = false := by
    rw [Option.any_eq_false]
    exact fun c hc => Bool.not_eq_true _ ▸ hrest c hc
  rw [suffixPart, hu, hnext]
  rfl

theorem suffixPart_of_head {rest : List Char} (hrest : ∀ c ∈ rest.head?, isUnit c = false) :
    suffixPart rest = [] := by
  cases rest with
  | nil => rfl
  | cons c rest =>
    rw [suffixPart, hrest c rfl]
    rfl

/-- No numeral goes on into a unit. -/
theorem stops_of_isUnit (p : Parts) {u : Char} (hu : isUnit u = true) (rest : List Char) :
    p.Stops (u :: rest) :=
  p.stops_of_head (forall_head?_cons.mpr (isDigit_of_isUnit hu))
    (forall_head?_cons.mpr (isPoint_of_isUnit hu))
    (forall_head?_cons.mpr (isExponentMark_of_isUnit hu))

/-- No numeral goes on into a blank. -/
theorem stops_of_blank (p : Parts) {gap : List Char} (hgap : ∀ c ∈ gap.head?, isBlank c = true) :
    p.Stops gap :=
  p.stops_of_head (fun c hc => isDigit_of_isBlank (hgap c hc))
    (fun c hc => isPoint_of_isBlank (hgap c hc)) fun c hc => isExponentMark_of_isBlank (hgap c hc)

theorem spells_of_number? {cs : List Char} {k : Lexeme.Kind} {width : Nat}
    (h : number? cs = some (k, width)) :
    width ≤ cs.length ∧ Spells (cs.take width) (cs.drop width) k := by
  simp only [number?, Option.ite_none_left_eq_some, Option.some.injEq, Prod.mk.injEq,
    List.isEmpty_iff] at h
  obtain ⟨hne, rfl, rfl⟩ := h
  have hnumeral : (parts cs).isNumeral = true := by
    by_contra hnot
    rw [leading, if_neg hnot] at hne
    exact hne rfl
  have hleading : leading cs = (parts cs).text := by rw [leading, if_pos hnumeral]
  have hp := valid_parts cs
  obtain ⟨rest, hcs⟩ := text_parts_isPrefix cs
  have hdrop : cs.drop (parts cs).text.length = rest :=
    List.append_cancel_left ((List.prefix_iff_eq_append.mp ⟨rest, hcs⟩).trans hcs.symm)
  rw [hleading, hdrop, value_text hp]
  generalize parts cs = p at hp hnumeral hcs
  subst hcs
  rcases suffixPart_cases rest with hnone | ⟨u, rest, rfl, hsome, hu, hrest⟩
  · rw [hnone, List.length_nil, Nat.add_zero, List.take_left, List.drop_left]
    exact ⟨by simp, .real hp hnumeral rest⟩
  · have hcut : p.text ++ u :: rest = (p.text ++ [u]) ++ rest := by simp
    have hwidth : p.text.length + [u].length = (p.text ++ [u]).length := List.length_append.symm
    rw [hsome, hcut, hwidth, List.take_left, List.drop_left]
    exact ⟨by simp, .imaginary hp hnumeral hu hrest⟩

theorem spells_of_name? {cs : List Char} {k : Lexeme.Kind} {width : Nat}
    (h : name? cs = some (k, width)) :
    width ≤ cs.length ∧ Spells (cs.take width) (cs.drop width) k := by
  cases cs with
  | nil => cases h
  | cons c cs =>
    simp only [name?, Option.ite_none_right_eq_some, Option.some.injEq, Prod.mk.injEq] at h
    obtain ⟨hc, rfl, rfl⟩ := h
    have hprefix : cs.takeWhile isNameChar <+: cs := List.takeWhile_prefix _
    rw [List.take_succ_cons, List.drop_succ_cons, ← List.prefix_iff_eq_take.mp hprefix]
    exact ⟨Nat.succ_le_succ hprefix.length_le,
      .name hc (fun d hd => List.mem_takeWhile_imp hd) _⟩

theorem spells_of_mark? {cs : List Char} {m : Mark} {width : Nat}
    (h : mark? cs = some (m, width)) :
    width ≤ cs.length ∧ Spells (cs.take width) (cs.drop width) (.mark m) := by
  have htake : width ≤ cs.length ∧ cs.take width = m.text.toList := by
    unfold mark? at h
    split at h
    case h_9 => cases h
    all_goals
      cases h
      exact ⟨by simp, rfl⟩
  rw [htake.2]
  exact ⟨htake.1, .mark m _⟩

/-- The lexeme at the start of a text is spelled there. -/
theorem spells_of_longest? {cs : List Char} {k : Lexeme.Kind} {width : Nat}
    (h : longest? cs = some (k, width)) :
    width ≤ cs.length ∧ Spells (cs.take width) (cs.drop width) k := by
  rw [longest?, Option.or_eq_some_iff, Option.or_eq_some_iff, Option.map_eq_some_iff] at h
  rcases h with h | ⟨-, h | ⟨-, ⟨m, w⟩, h, heq⟩⟩
  · exact spells_of_number? h
  · exact spells_of_name? h
  · obtain ⟨rfl, rfl⟩ := Prod.mk.inj heq
    exact spells_of_mark? h

/-- Only marks start like marks. -/
theorem longest?_mark (m : Mark) (rest : List Char) :
    longest? (m.text.toList ++ rest) =
      (mark? (m.text.toList ++ rest)).map fun (m, width) => (.mark m, width) := by
  have hmark {c : Char} (hdigit : isDigit c = false) (hpoint : isPoint c = false)
      (hc : isNameStart c = false) (cs : List Char) :
      longest? (c :: cs) = (mark? (c :: cs)).map fun (m, width) => (.mark m, width) := by
    rw [longest?, number?_eq_none hdigit hpoint, name?, hc]
    rfl
  cases m <;> exact hmark (by decide) (by decide) (by decide) _

/-- A mark is read in front of anything but a second star. -/
theorem mark?_append (m : Mark) {rest : List Char} (hrest : rest.head? ≠ some '*') :
    mark? (m.text.toList ++ rest) = some (m, m.text.toList.length) := by
  cases m with
  | star =>
    change mark? ('*' :: rest) = some (.star, 1)
    cases rest with
    | nil => rfl
    | cons c rest =>
      have hc : c ≠ '*' := fun hc => hrest (congrArg some hc)
      simp [mark?, hc]
  | _ => rfl

/-- In front of a second star, a star belongs to a longer mark. -/
theorem exists_longest?_mark (m : Mark) (rest : List Char) :
    ∃ k width, longest? (m.text.toList ++ rest) = some (k, width) ∧
      m.text.toList.length ≤ width := by
  rw [longest?_mark]
  cases m with
  | star =>
    by_cases hrest : rest.head? = some '*'
    · obtain ⟨after, rfl⟩ := List.head?_eq_some_iff.mp hrest
      exact ⟨_, _, rfl, by decide⟩
    · rw [mark?_append .star hrest]
      exact ⟨_, _, rfl, Nat.le_refl _⟩
  | _ => exact ⟨_, _, rfl, Nat.le_refl _⟩

namespace Spells

variable {slice rest : List Char} {k : Lexeme.Kind}

theorem ne_nil (h : Spells slice rest k) : slice ≠ [] := by
  cases h with
  | real hp hnumeral => exact hp.text_ne_nil hnumeral
  | imaginary => simp
  | name => exact List.cons_ne_nil _ _
  | mark m => cases m <;> decide

/-- **Nothing longer is spelled at a place** than the lexeme that is read there. -/
theorem exists_longest? (h : Spells slice rest k) :
    ∃ k' width, longest? (slice ++ rest) = some (k', width) ∧ slice.length ≤ width := by
  cases h with
  | @real p hp hnumeral =>
    have hle := hp.length_text_le hnumeral rest
    have hpos : 0 < p.text.length := List.length_pos_iff.mpr (Spells.real hp hnumeral rest).ne_nil
    have hsome : (leading (p.text ++ rest)).isEmpty = false := by
      rw [List.isEmpty_eq_false_iff, ← List.length_pos_iff]
      omega
    rw [longest?, number?, hsome]
    exact ⟨_, _, rfl, Nat.le_add_right_of_le hle⟩
  | @imaginary p hp hnumeral u hu _ hrest =>
    rw [List.append_assoc, List.singleton_append,
      longest?_numeral hp hnumeral (stops_of_isUnit p hu rest), suffixPart_cons hu hrest]
    exact ⟨_, _, rfl, by simp⟩
  | @name c cs hc hcs =>
    have hlonger : ((cs ++ rest).takeWhile isNameChar) = cs ++ rest.takeWhile isNameChar :=
      List.takeWhile_append_of_pos hcs
    rw [List.cons_append, longest?,
      number?_eq_none (isDigit_of_isNameStart hc) (isPoint_of_isNameStart hc), name?, if_pos hc,
      hlonger]
    refine ⟨_, _, rfl, ?_⟩
    rw [List.length_cons, List.length_append]
    omega
  | mark m =>
    obtain ⟨k', width, hlongest, hle⟩ := exists_longest?_mark m rest
    exact ⟨k', width, hlongest, hle⟩

/-- A lexeme is read again in front of a blank or at the end. -/
theorem reads (h : Spells slice rest k) {gap : List Char}
    (hgap : ∀ c ∈ gap.head?, isBlank c = true) : Reads (slice ++ gap) [k] gap := by
  have hname : ∀ c ∈ gap.head?, isNameChar c = false :=
    fun c hc => isNameChar_of_isBlank (hgap c hc)
  cases h with
  | @real p hp hnumeral =>
    have hread := Reads.numeral hp hnumeral (stops_of_blank p hgap)
    have hunit := suffixPart_of_head fun c hc => isUnit_of_isBlank (hgap c hc)
    rwa [hunit, value_text hp] at hread
  | @imaginary p hp hnumeral u hu =>
    have hread := Reads.numeral hp hnumeral (stops_of_isUnit p hu gap)
    rwa [suffixPart_cons hu hname, value_text hp, ← List.singleton_append, List.drop_left,
      ← List.append_assoc] at hread
  | @name c cs hc hcs =>
    exact .name (isDigit_of_isNameStart hc) (isPoint_of_isNameStart hc) hc hcs hname
  | mark m =>
    have hstar : gap.head? ≠ some '*' := fun hgap' => absurd (hgap '*' hgap') (by decide)
    have hlongest := longest?_mark m gap
    rw [mark?_append m hstar] at hlongest
    have hread := Reads.lexeme (by cases m <;> exact forall_head?_cons.mpr (by decide)) hlongest
    rwa [List.drop_left] at hread

end Spells

end Lexer

end Argand
