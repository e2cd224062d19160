import Argand.Proofs.LineNumbers

/-!
# Formulas put together

A formula that consists of two texts with a line feed between them is read as the first and
then as the second, further down.  Its tokens come in the order of its lines, and those of a
line are the tokens of that line alone.

## Main results

* `linesTokens_concat_newline` — a line feed at the end of a text changes nothing.
* `exists_line_of_mem_linesTokens` — every token comes from one of the lines.
* `pairwise_line_linesTokens` — tokens come in the order of the lines.
* `filter_line_linesTokens` — the tokens with the number of a line are those of that line.
* `Program.parse_concatenation` — **reading is a homomorphism from texts that are put together
  to tokens that are put together.**
-/

namespace Argand

open Text Formula

variable {number : Int} {raws : List (List Char)} {tokens : List Token}

/-! ### Tokens and the lines they come from -/

/-- Every token comes from one of the lines. -/
theorem exists_line_of_mem_linesTokens (h : linesTokens number raws = .ok tokens) {t : Token}
    (ht : t ∈ tokens) : ∃ (i : Nat) (raw : List Char) (here : List Token),
      raws[i]? = some raw ∧ lineTokens raw (number + i) = .ok here ∧ t ∈ here := by
  induction raws generalizing number tokens with
  | nil =>
    obtain rfl := Except.ok.inj h
    cases ht
  | cons raw rest ih =>
    obtain ⟨here, more, hhere, hmore, rfl⟩ := linesTokens_cons_eq_ok h
    rcases List.mem_append.mp ht with ht | ht
    · exact ⟨0, raw, here, rfl, by rwa [Int.natCast_zero, Int.add_zero], ht⟩
    · obtain ⟨i, raw', here', hraw, hhere', ht⟩ := ih hmore ht
      have hnumber : number + 1 + i = number + (i + 1 : Nat) := by omega
      exact ⟨i + 1, raw', here', hraw, hnumber ▸ hhere', ht⟩

/-- The number of a token is that of a line. -/
theorem line_bounds_of_mem_linesTokens (h : linesTokens number raws = .ok tokens) {t : Token}
    (ht : t ∈ tokens) : number ≤ t.line ∧ t.line < number + raws.length := by
  obtain ⟨i, raw, here, hraw, hhere, ht⟩ := exists_line_of_mem_linesTokens h ht
  have hline := line_of_mem_lineTokens hhere t ht
  obtain ⟨hlt, -⟩ := List.getElem?_eq_some_iff.mp hraw
  omega

/-- Tokens come in the order of the lines. -/
theorem pairwise_line_linesTokens (h : linesTokens number raws = .ok tokens) :
    tokens.Pairwise (·.line ≤ ·.line) := by
  induction raws generalizing number tokens with
  | nil =>
    obtain rfl := Except.ok.inj h
    exact .nil
  | cons raw rest ih =>
    obtain ⟨here, more, hhere, hmore, rfl⟩ := linesTokens_cons_eq_ok h
    have hline := line_of_mem_lineTokens hhere
    refine List.pairwise_append.mpr ⟨?_, ih hmore, fun s hs t ht => ?_⟩
    · refine List.pairwise_of_forall_mem_list fun s hs t ht => ?_
      exact Int.le_of_eq ((hline s hs).trans (hline t ht).symm)
    · have hbelow := (line_bounds_of_mem_linesTokens hmore ht).1
      rw [hline s hs]
      omega

/-- The tokens with the number of a line are those of that line. -/
theorem filter_line_linesTokens (h : linesTokens number raws = .ok tokens) {i : Nat}
    {raw : List Char} (hraw : raws[i]? = some raw) :
    lineTokens raw (number + i) = .ok (tokens.filter fun t => t.line = number + i) := by
  obtain ⟨hlt, rfl⟩ := List.getElem?_eq_some_iff.mp hraw
  have habove : (raws.take i).length = i := List.length_take_of_le (Nat.le_of_lt hlt)
  have hraws : raws = raws.take i ++ raws[i] :: raws.drop (i + 1) := by
    rw [List.getElem_cons_drop, List.take_append_drop]
  rw [hraws] at h
  obtain ⟨before, here, after, hbefore, hhere, hafter, rfl⟩ := linesTokens_cut h
  rw [habove] at hhere hafter
  have hother {ts : List Token} (hts : ∀ t ∈ ts, t.line ≠ number + i) :
      (ts.filter fun t => t.line = number + i) = [] :=
    List.filter_eq_nil_iff.mpr fun t ht => by simpa using hts t ht
  have hbeforeLine : ∀ t ∈ before, t.line ≠ number + i := by
    intro t ht
    have := (line_bounds_of_mem_linesTokens hbefore ht).2
    omega
  have hafterLine : ∀ t ∈ after, t.line ≠ number + i := by
    intro t ht
    have := (line_bounds_of_mem_linesTokens hafter ht).1
    omega
  have hhereLine : (here.filter fun t => t.line = number + i) = here :=
    List.filter_eq_self.mpr fun t ht => decide_eq_true (line_of_mem_lineTokens hhere t ht)
  rw [List.filter_append, List.filter_append, hother hbeforeLine, hhereLine, hother hafterLine,
    List.nil_append, List.append_nil, hhere]

/-! ### Texts put together -/

/-- A line feed at the end of a text changes nothing. -/
theorem linesTokens_concat_newline (number : Int) (cs : List Char) :
    linesTokens number (lines (cs ++ ['\n'])) = linesTokens number (lines cs) := by
  rcases lines_concat_newline cs with h | h
  · rw [h]
  · rw [h, linesTokens_append, linesTokens_singleton, lineTokens_of_skipped (.inl rfl)]
    cases linesTokens number (lines cs) <;> simp [Except.bind, Except.map]

/-- A line is a formula of its own. -/
theorem Program.parse_ofList {raw : List Char} (h : ∀ c ∈ raw, isLineBreak c = false) :
    Program.parse (String.ofList raw) =
      (lineTokens raw 1).map (⟨·, String.ofList raw⟩) := by
  rw [parse_eq, String.toList_ofList]
  by_cases hraw : raw = []
  · subst hraw
    rfl
  · rw [lines_of_forall hraw h, linesTokens_singleton]

/-- A line that can be read further down is read alone, and its tokens are those of the line
alone, moved down. -/
theorem Program.exists_parse_ofList {raw : List Char} (hbreaks : ∀ c ∈ raw, isLineBreak c = false)
    {k : Int} {tokens : List Token} (h : lineTokens raw (1 + k) = .ok tokens) :
    ∃ q, Program.parse (String.ofList raw) = .ok q ∧ tokens = q.tokens.map (·.shift k) := by
  rw [lineTokens_shift] at h
  rw [parse_ofList hbreaks]
  cases halone : lineTokens raw 1 with
  | error e =>
    rw [halone] at h
    cases h
  | ok alone =>
    rw [halone] at h
    exact ⟨⟨alone, String.ofList raw⟩, rfl, (Except.ok.inj h).symm⟩

/-- What a line of a formula is read as is what it is read as alone, further down. -/
theorem Program.exists_parse_line {text : String} {p : Program} (h : Program.parse text = .ok p)
    {i : Nat} {raw : List Char} (hraw : (lines text.toList)[i]? = some raw) :
    ∃ q, Program.parse (String.ofList raw) = .ok q ∧
      (p.tokens.filter fun t => t.line = (i : Int) + 1) = q.tokens.map (·.shift i) := by
  obtain ⟨hlines, -⟩ := parse_eq_ok_iff.mp h
  have hbreaks := isLineBreak_of_mem_lines (List.mem_of_getElem? hraw)
  have hhere := filter_line_linesTokens hlines hraw
  rw [Int.add_comm (i : Int) 1]
  exact exists_parse_ofList hbreaks hhere

/-- **Reading is a homomorphism from texts that are put together to tokens that are put
together.**  With `k` the number of lines of `a` and the line feed, a text `a`, a line feed
and a text `b` are read as `a` is, up to its first error, and then as `b` is, `k` lines
further down.  So the tokens of a line are those that it has alone, tokens come in the order of
the lines, and there are none on lines that are blank or comments. -/
theorem Program.parse_concatenation (a b : String) :
    (let k := (lines (a ++ "\n").toList).length
     Program.parse (a ++ "\n" ++ b) =
      match Program.parse a with
      | .error e => .error e
      | .ok p =>
        match Program.parse b with
        | .error e => .error (e.shift k)
        | .ok q => .ok ⟨p.tokens ++ q.tokens.map (·.shift k), a ++ "\n" ++ b⟩) ∧
    ∀ text p, Program.parse text = .ok p →
      (∀ (i : Nat) raw, (lines text.toList)[i]? = some raw →
        ∃ q, Program.parse (String.ofList raw) = .ok q ∧
          (p.tokens.filter fun t => t.line = (i : Int) + 1) = q.tokens.map (·.shift i)) ∧
      p.tokens.Pairwise (·.line ≤ ·.line) ∧
      ∀ t ∈ p.tokens, ∃ (i : Nat) (raw : List Char), (lines text.toList)[i]? = some raw ∧
        t.line = i + 1 ∧ ¬Skipped raw := by
  constructor
  · intro k
    have hlines : lines (a ++ "\n" ++ b).toList =
        lines (a ++ "\n").toList ++ lines b.toList := by
      rw [String.toList_append, String.toList_append, List.append_assoc]
      exact lines_append a.toList b.toList
    have habove : linesTokens 1 (lines (a ++ "\n").toList) = linesTokens 1 (lines a.toList) := by
      rw [String.toList_append]
      exact linesTokens_concat_newline 1 a.toList
    rw [parse_eq, parse_eq, parse_eq, hlines, linesTokens_append, habove, linesTokens_shift]
    cases linesTokens 1 (lines a.toList) with
    | error e => rfl
    | ok above => cases linesTokens 1 (lines b.toList) <;> rfl
  · intro text p h
    obtain ⟨hlines, -⟩ := parse_eq_ok_iff.mp h
    refine ⟨fun i raw hraw => exists_parse_line h hraw, pairwise_line_linesTokens hlines, ?_⟩
    intro t ht
    obtain ⟨i, raw, here, hraw, hhere, ht⟩ := exists_line_of_mem_linesTokens hlines ht
    have hline := line_of_mem_lineTokens hhere t ht
    refine ⟨i, raw, hraw, hline.trans (Int.add_comm ..), fun hskipped => ?_⟩
    rw [lineTokens_of_skipped hskipped] at hhere
    obtain rfl := Except.ok.inj hhere
    cases ht

/-- The last of five lines is read as it is read alone, four lines further down; the error of
a sixth has the number six. -/
theorem Program.parse_concatenation_product :
    let text := "# c\n2\r\n= y\n\ny*x"
    let p : Program := ⟨[⟨.number ⟨2, 0⟩, 2⟩, ⟨.assign "y", 3⟩, ⟨.identifier "y", 5⟩, ⟨.input, 5⟩,
      ⟨.operation (.binary .mul), 5⟩], text⟩
    Program.parse text = .ok p ∧
      Program.parse (text ++ "\n" ++ "= 2") = .error ⟨6, 2, .invalidTarget "2"⟩ ∧
      ∃ q, Program.parse "y*x" = .ok q ∧
        (p.tokens.filter fun t => t.line = 5) = q.tokens.map (·.shift 4) := by
  intro text p
  have htext : Program.parse text = .ok p := by decide +kernel
  have hsixth : Program.parse "= 2" = .error ⟨1, 2, .invalidTarget "2"⟩ := by decide +kernel
  obtain ⟨hboth, hevery⟩ := Program.parse_concatenation text "= 2"
  obtain ⟨hline, -, -⟩ := hevery text p htext
  refine ⟨htext, ?_, ?_⟩
  · rw [hboth, htext, hsixth]
    decide +kernel
  · exact hline 4 "y*x".toList (by decide +kernel)

end Argand
