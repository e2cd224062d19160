import Argand.Text.Lines
import Mathlib.Data.List.DropRight
import Mathlib.Data.List.TakeWhile

/-!
# Lines and the blanks at their ends

How texts of one line and of several fall into lines, and what is left of a line when the
blanks at its ends are cut off.

## Main results

* `lines_of_forall`, `lines_append_newline` — a text without line breaks has one line, and a
  line feed ends a line.
* `lines_append`, `lines_concat_newline` — the lines of two texts with a line feed between them,
  and of a text with a line feed behind it.
* `isLineBreak_of_mem_lines` — no line has a break in it.
* `intercalate_splitAtNewlines` — the pieces between line feeds make up the text.
* `exists_trimEnd_append`, `head?_trim`, `stripped_trim` — only blanks are cut off, and all of them.
* `trim_trim`, `trim_eq_self` — a trimmed text stays as it is.
-/

namespace Argand.Text

/-! ### Lines -/

theorem lines_cons {c : Char} (hc : isLineBreak c = false) (cs : List Char) :
    lines (c :: cs) = consToFirst c (lines cs) := by
  have hne : c ≠ '\r' := by
    rintro rfl
    cases hc
  rw [lines, hc]
  · rfl
  · exact fun _ h _ => hne h

/-- A line ends at a line feed. -/
theorem lines_append_newline {cs : List Char} (h : ∀ c ∈ cs, isLineBreak c = false)
    (rest : List Char) : lines (cs ++ '\n' :: rest) = cs :: lines rest := by
  induction cs with
  | nil => rfl
  | cons c cs ih =>
    rw [List.cons_append, lines_cons (h c (List.mem_cons_self ..)),
      ih fun d hd => h d (List.mem_cons_of_mem _ hd)]
    rfl

/-- A text without line breaks has one line. -/
theorem lines_of_forall {cs : List Char} (hne : cs ≠ []) (h : ∀ c ∈ cs, isLineBreak c = false) :
    lines cs = [cs] := by
  induction cs with
  | nil => exact absurd rfl hne
  | cons c cs ih =>
    rw [lines_cons (h c (List.mem_cons_self ..))]
    cases cs with
    | nil => rfl
    | cons d ds =>
      rw [ih (List.cons_ne_nil d ds) fun e he => h e (List.mem_cons_of_mem _ he)]
      rfl

/-- A break ends a line, unless it is the first half of a longer break. -/
theorem lines_break {c : Char} (hc : isLineBreak c = true) {cs : List Char}
    (h : ∀ ds, c = '\r' → cs = '\n' :: ds → False) : lines (c :: cs) = [] :: lines cs := by
  rw [lines, if_pos hc]
  exact h

/-- A break in front of more text stays what it is, unless only the text joins it to a line
feed. -/
theorem lines_break_append {c : Char} (hc : isLineBreak c = true) {cs : List Char}
    (h : ∀ ds, c = '\r' → cs = '\n' :: ds → False) (hjoin : ¬(c = '\r' ∧ cs = []))
    (es : List Char) : lines (c :: (cs ++ es)) = [] :: lines (cs ++ es) := by
  refine lines_break hc fun ds hreturn hfeed => ?_
  cases cs with
  | nil => exact hjoin ⟨hreturn, rfl⟩
  | cons d cs => exact h cs hreturn (congrArg (· :: cs) (List.cons.inj hfeed).1)

theorem consToFirst_ne_nil (c : Char) (ls : List (List Char)) : consToFirst c ls ≠ [] := by
  cases ls <;> exact List.cons_ne_nil _ _

theorem lines_ne_nil {cs : List Char} (h : cs ≠ []) : lines cs ≠ [] := by
  fun_cases lines cs with
  | case1 => exact absurd rfl h
  | case2 => exact List.cons_ne_nil _ _
  | case3 => exact List.cons_ne_nil _ _
  | case4 c cs => exact consToFirst_ne_nil c _

theorem consToFirst_append {ls : List (List Char)} (h : ls ≠ []) (c : Char)
    (ms : List (List Char)) : consToFirst c (ls ++ ms) = consToFirst c ls ++ ms := by
  obtain ⟨line, rest, rfl⟩ := List.exists_cons_of_ne_nil h
  rfl

/-- Two texts with a line feed between them fall into the lines of the first, with the line
feed, and those of the second. -/
theorem lines_append (cs ds : List Char) :
    lines (cs ++ '\n' :: ds) = lines (cs ++ ['\n']) ++ lines ds := by
  induction cs using lines.induct with
  | case1 => rfl
  | case2 cs ih => exact congrArg ([] :: ·) ih
  | case3 c cs hhalf hc ih =>
    by_cases hjoin : c = '\r' ∧ cs = []
    · -- a carriage return joins the line feed
      obtain ⟨rfl, rfl⟩ := hjoin
      rfl
    · have hbreak := lines_break_append hc hhalf hjoin
      rw [List.cons_append, List.cons_append, hbreak, hbreak, ih, List.cons_append]
  | case4 c cs _ hc ih =>
    have hc : isLineBreak c = false := eq_false_of_ne_true hc
    have hfirst : lines (cs ++ ['\n']) ≠ [] := lines_ne_nil (by simp)
    rw [List.cons_append, List.cons_append, lines_cons hc, lines_cons hc, ih,
      consToFirst_append hfirst]

/-- A line feed at the end opens at most a blank line. -/
theorem lines_concat_newline (cs : List Char) :
    lines (cs ++ ['\n']) = lines cs ∨ lines (cs ++ ['\n']) = lines cs ++ [[]] := by
  induction cs using lines.induct with
  | case1 => exact .inr rfl
  | case2 cs ih => exact ih.imp (congrArg ([] :: ·)) (congrArg ([] :: ·))
  | case3 c cs hhalf hc ih =>
    by_cases hjoin : c = '\r' ∧ cs = []
    · obtain ⟨rfl, rfl⟩ := hjoin
      exact .inl rfl
    · rw [List.cons_append, lines_break hc hhalf, lines_break_append hc hhalf hjoin]
      exact ih.imp (congrArg ([] :: ·)) (congrArg ([] :: ·))
  | case4 c cs _ hc ih =>
    have hc : isLineBreak c = false := eq_false_of_ne_true hc
    rw [List.cons_append, lines_cons hc, lines_cons hc]
    by_cases hcs : cs = []
    · subst hcs
      exact .inl rfl
    · rw [← consToFirst_append (lines_ne_nil hcs)]
      exact ih.imp (congrArg (consToFirst c)) (congrArg (consToFirst c))

/-- No line has a break in it. -/
theorem isLineBreak_of_mem_lines {cs raw : List Char} (h : raw ∈ lines cs) :
    ∀ c ∈ raw, isLineBreak c = false := by
  induction cs using lines.induct generalizing raw with
  | case1 => cases h
  | case2 cs ih =>
    rcases List.mem_cons.mp h with rfl | h
    · exact List.forall_mem_nil _
    · exact ih h
  | case3 c cs hhalf hc ih =>
    rw [lines_break hc hhalf] at h
    rcases List.mem_cons.mp h with rfl | h
    · exact List.forall_mem_nil _
    · exact ih h
  | case4 c cs _ hc ih =>
    have hc : isLineBreak c = false := eq_false_of_ne_true hc
    rw [lines_cons hc] at h
    cases hlines : lines cs with
    | nil =>
      rw [hlines, consToFirst_nil] at h
      obtain rfl := List.mem_singleton.mp h
      exact List.forall_mem_singleton.mpr hc
    | cons line rest =>
      rw [hlines] at h ih
      rcases List.mem_cons.mp h with rfl | h
      · exact List.forall_mem_cons.mpr ⟨hc, ih (List.mem_cons_self ..)⟩
      · exact ih (List.mem_cons_of_mem _ h)

/-! ### Pieces between line feeds -/

theorem splitAtNewlines_ne_nil (cs : List Char) : splitAtNewlines cs ≠ [] := by
  cases cs with
  | nil => exact List.cons_ne_nil _ _
  | cons c cs =>
    rw [splitAtNewlines]
    split
    · exact List.cons_ne_nil _ _
    · cases splitAtNewlines cs <;> exact List.cons_ne_nil _ _

theorem newline_notMem_of_mem_splitAtNewlines {cs piece : List Char}
    (h : piece ∈ splitAtNewlines cs) : '\n' ∉ piece := by
  induction cs generalizing piece with
  | nil =>
    obtain rfl := List.mem_singleton.mp h
    exact List.not_mem_nil
  | cons c cs ih =>
    rw [splitAtNewlines] at h
    split at h
    · rcases List.mem_cons.mp h with rfl | h
      · exact List.not_mem_nil
      · exact ih h
    · next hc =>
      cases hpieces : splitAtNewlines cs with
      | nil => exact absurd hpieces (splitAtNewlines_ne_nil cs)
      | cons first rest =>
        rw [hpieces, consToFirst_cons] at h
        rw [hpieces] at ih
        rcases List.mem_cons.mp h with rfl | h
        · exact List.not_mem_cons_of_ne_of_not_mem (Ne.symm hc) (ih List.mem_cons_self)
        · exact ih (List.mem_cons_of_mem first h)

/-- With line feeds between them the pieces are the text again. -/
theorem intercalate_splitAtNewlines (cs : List Char) :
    List.intercalate ['\n'] (splitAtNewlines cs) = cs := by
  induction cs with
  | nil => rfl
  | cons c cs ih =>
    rw [splitAtNewlines]
    cases hpieces : splitAtNewlines cs with
    | nil => exact absurd hpieces (splitAtNewlines_ne_nil cs)
    | cons first rest =>
      rw [hpieces] at ih
      split
      · next hc =>
        rw [List.intercalate_cons_cons, ih, hc]
        rfl
      · rw [consToFirst_cons]
        cases rest with
        | nil =>
          rw [List.intercalate_singleton] at ih ⊢
          rw [ih]
        | cons second rest =>
          rw [List.intercalate_cons_cons] at ih ⊢
          rw [← ih]
          rfl

/-! ### Trimmed texts -/

/-- What is cut off the end of a text is blank. -/
theorem exists_trimEnd_append (cs : List Char) :
    ∃ bs, (∀ b ∈ bs, isBlank b = true) ∧ trimEnd cs ++ bs = cs := by
  refine ⟨(cs.reverse.takeWhile isBlank).reverse, ?_, ?_⟩
  · intro b hb
    exact List.mem_takeWhile_imp (List.mem_reverse.mp hb)
  · rw [trimEnd, ← List.reverse_append, List.takeWhile_append_dropWhile, List.reverse_reverse]

theorem trimStart_eq_self {cs : List Char} (h : ∀ c ∈ cs.head?, isBlank c = false) :
    trimStart cs = cs := by
  cases cs with
  | nil => rfl
  | cons c cs => exact trimStart_cons_of_not_blank (h c rfl) cs

theorem head?_trimStart (cs : List Char) : ∀ c ∈ (trimStart cs).head?, isBlank c = false := by
  intro c hc
  have hnot := List.head?_dropWhile_not isBlank cs
  rw [trimStart] at hc
  rwa [hc] at hnot

/-- What is not blank at the start stays there when blanks are cut off the end. -/
theorem head?_trim (cs : List Char) : ∀ c ∈ (trim cs).head?, isBlank c = false := by
  obtain ⟨bs, -, hbs⟩ := exists_trimEnd_append (trimStart cs)
  intro c hc
  refine head?_trimStart cs c ?_
  rw [trim] at hc
  rw [← hbs]
  cases htrim : trimEnd (trimStart cs) with
  | nil =>
    rw [htrim] at hc
    cases hc
  | cons d ds =>
    rw [htrim] at hc
    exact hc

/-- The last character that is kept when blanks are cut off. -/
theorem getLast?_trimEnd (cs : List Char) : ∀ c ∈ (trimEnd cs).getLast?, isBlank c = false := by
  intro c hc
  rw [trimEnd, List.getLast?_reverse] at hc
  exact head?_trimStart cs.reverse c hc

/-- A text that was cut off at its ends, without the blanks. -/
structure Stripped (cs kept : List Char) : Prop where
  between : ∃ before after, cs = before ++ kept ++ after ∧
    (∀ c ∈ before, isBlank c = true) ∧ ∀ c ∈ after, isBlank c = true
  head : ∀ c ∈ kept.head?, isBlank c = false
  last : ∀ c ∈ kept.getLast?, isBlank c = false

theorem stripped_trim (cs : List Char) : Stripped cs (trim cs) := by
  obtain ⟨after, hafter, hend⟩ := exists_trimEnd_append (trimStart cs)
  refine ⟨⟨cs.takeWhile isBlank, after, ?_, fun c hc => List.mem_takeWhile_imp hc, hafter⟩,
    head?_trim cs, getLast?_trimEnd (trimStart cs)⟩
  rw [trim, List.append_assoc, hend, takeWhile_append_trimStart]

theorem trim_trim (cs : List Char) : trim (trim cs) = trim cs := by
  have hstart : trimStart (trim cs) = trim cs := trimStart_eq_self (head?_trim cs)
  rw [trim, hstart]
  exact List.rdropWhile_idempotent isBlank (trimStart cs)

/-- A text that neither starts nor ends with a blank. -/
theorem trim_eq_self {c d : Char} {cs : List Char} (hc : isBlank c = false)
    (hd : isBlank d = false) : trim (c :: (cs ++ [d])) = c :: (cs ++ [d]) := by
  rw [trim, trimStart_cons_of_not_blank hc, ← List.cons_append]
  exact List.rdropWhile_concat_neg isBlank (c :: cs) d (by simp [hd])

end Argand.Text
