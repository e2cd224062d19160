import Argand.Proofs.Concatenation
import Argand.Proofs.Refusals
import Argand.Proofs.Slices

/-!
# Where errors point

A formula that cannot be read is blamed on the first line that cannot, and the column of the error
is that of what the error names: the character, the lexeme, the parenthesis, the target of the
assignment, or the end of the line where an operand is missing.

## Main definitions

* `Lexer.StandsAt raw column k` — a lexeme of the line stands at a column.
* `TargetColumn raw column` — where the target of an assignment stands, or should.
* `ParseError.Reason.Points raw column` — what an error names stands at the column.

## Main results

* `exists_line_of_linesTokens_eq_error` — the first line that cannot be read is to blame.
* `points_of_lineTokens` — the error of a line points at what it names.
* `Program.parse_error_points` — **errors point at what they name.**
-/

namespace Argand

open Text Formula

/-! ### What stands at a column -/

/-- A lexeme of the line stands at a column, and is what is spelled there. -/
def Lexer.StandsAt (raw : List Char) (column : Nat) (k : Lexeme.Kind) : Prop :=
  ∃ ls, scan 0 raw = .ok ls ∧ ∃ l ∈ ls, l.column = column ∧ l.kind = k ∧
    Spells (slice raw l) (raw.drop (column + l.width)) k

/-- The column behind the sign of an assignment and the blanks there: that of the first character
that is not blank, or else the end of the line. -/
def TargetColumn (raw : List Char) (column : Nat) : Prop :=
  ∃ before gap after, raw = before ++ assignmentSign :: (gap ++ after) ∧
    (∀ c ∈ before, isBlank c = true) ∧ (∀ c ∈ gap, isBlank c = true) ∧
    (∀ c ∈ after.head?, isBlank c = false) ∧ column = before.length + 1 + gap.length

/-- What an error names stands at the column. -/
def ParseError.Reason.Points (raw : List Char) (column : Nat) : ParseError.Reason → Prop
  | .unexpectedCharacter c => raw[column]? = some c
  | .unexpectedLexeme found => Lexer.StandsAt raw column found
  | .expectedOperand found => Lexer.StandsAt raw column found
  | .unknownFunction name => Lexer.StandsAt raw column (.name name)
  | .unmatchedOpen => raw[column]? = some '('
  | .unmatchedClose => raw[column]? = some ')'
  | .missingOperand => column = contentEnd raw
  | .invalidTarget text => text = target raw ∧ TargetColumn raw column
  | .reservedTarget name => name = target raw ∧ TargetColumn raw column
  -- a line that is no number is read as an expression
  | .notANumber _ => False

namespace Lexer

variable {raw : List Char} {ls : List Lexeme}

theorem tiles_of_scan (h : scan 0 raw = .ok ls) : Tiles raw 0 raw.length ls := by
  have htiles := tiles_scan raw 0 (Nat.zero_le _)
  rw [List.drop_zero, h] at htiles
  exact htiles

/-- Every lexeme stands at its column, in front of the end of the line. -/
theorem standsAt_of_mem_scan (h : scan 0 raw = .ok ls) {l : Lexeme} (hl : l ∈ ls) :
    StandsAt raw l.column l.kind ∧ l.column ≤ raw.length := by
  have htiles := tiles_of_scan h
  have hwithin := (htiles.within l hl).2
  exact ⟨⟨ls, h, l, hl, rfl, rfl, (htiles.spelled l hl).2⟩, by omega⟩

/-- The first character of a mark stands at its column. -/
theorem StandsAt.getElem? {column : Nat} {m : Mark} (h : StandsAt raw column (.mark m)) :
    raw[column]? = m.text.toList.head? := by
  obtain ⟨ls, -, l, -, rfl, -, hspells⟩ := h
  obtain hslice : slice raw l = m.text.toList := by
    generalize slice raw l = s at hspells
    cases hspells
    rfl
  have hwidth : l.width ≠ 0 := by
    intro hzero
    rw [slice, hzero, List.take_zero] at hslice
    cases m <;> exact absurd hslice (by decide)
  rw [← hslice, slice, List.head?_take, if_neg hwidth, List.head?_drop]

end Lexer

/-! ### The errors of a line -/

/-- What follows the sign of an assignment starts behind blanks. -/
theorem targetColumn_of_assignment {raw : List Char}
    (h : (trim raw).head? = some assignmentSign) :
    TargetColumn raw (raw.idxOf assignmentSign + 1 +
      indent (raw.drop (raw.idxOf assignmentSign + 1))) := by
  have hbefore : ∀ c ∈ raw.takeWhile isBlank, isBlank c = true :=
    fun c hc => List.mem_takeWhile_imp hc
  -- blanks at the end do not change what the line starts with
  obtain ⟨cs, hcs⟩ : ∃ cs, trimStart raw = assignmentSign :: cs := by
    obtain ⟨bs, -, hbs⟩ := exists_trimEnd_append (trimStart raw)
    obtain ⟨ds, hds⟩ := List.head?_eq_some_iff.mp h
    rw [trim] at hds
    exact ⟨ds ++ bs, by rw [← hbs, hds, List.cons_append]⟩
  have hraw : raw = raw.takeWhile isBlank ++ assignmentSign :: cs := by
    rw [← hcs, takeWhile_append_trimStart]
  generalize raw.takeWhile isBlank = before at hbefore hraw
  subst hraw
  have hsign : assignmentSign ∉ before := fun hmem => absurd (hbefore _ hmem) (by decide)
  have hstart : (before ++ assignmentSign :: cs).idxOf assignmentSign = before.length := by
    rw [List.idxOf_append_of_notMem hsign, List.idxOf_cons_self, Nat.add_zero]
  have hdrop : (before ++ assignmentSign :: cs).drop (before.length + 1) = cs := by
    rw [← List.drop_drop, List.drop_left, List.drop_one, List.tail_cons]
  rw [hstart, hdrop]
  refine ⟨before, cs.takeWhile isBlank, trimStart cs, ?_, hbefore,
    fun c hc => List.mem_takeWhile_imp hc, head?_trimStart cs, rfl⟩
  rw [takeWhile_append_trimStart]

theorem TargetColumn.le_length {raw : List Char} {column : Nat} (h : TargetColumn raw column) :
    column ≤ raw.length := by
  obtain ⟨before, gap, after, rfl, -, -, -, rfl⟩ := h
  simp only [List.length_append, List.length_cons]
  omega

theorem contentEnd_le_length (raw : List Char) : contentEnd raw ≤ raw.length := by
  obtain ⟨bs, -, hbs⟩ := exists_trimEnd_append raw
  have hlength := congrArg List.length hbs
  rw [List.length_append] at hlength
  rw [contentEnd]
  omega

/-- The error of a line that is no sentence points at a lexeme or at the end of the line. -/
theorem points_of_refuses {raw : List Char} {number : Int} {ls : List Lexeme} {e : ParseError}
    (hscan : Lexer.scan 0 raw = .ok ls) (h : Refuses ⟨number, contentEnd raw⟩ ls e) :
    e.line = number ∧ e.column ≤ raw.length ∧ e.reason.Points raw e.column := by
  have hstands {l : Lexeme} (hl : l ∈ ls) := Lexer.standsAt_of_mem_scan hscan hl
  cases h with
  | stops h =>
    cases h with
    | missingOperand => exact ⟨rfl, contentEnd_le_length raw, rfl⟩
    | expectedOperand hl => exact ⟨rfl, (hstands hl).2, (hstands hl).1⟩
    | unknownFunction hl hname =>
      obtain ⟨hcall, hle⟩ := hstands hl
      rw [hname] at hcall
      exact ⟨rfl, hle, hcall⟩
    | @unmatchedOpen l hl before =>
      obtain ⟨hopen, hle⟩ := hstands (List.mem_append_right before List.mem_cons_self)
      rw [hl] at hopen
      exact ⟨rfl, hle, hopen.getElem?⟩
  | @unmatchedClose before d hd l hl =>
    obtain ⟨hclose, hle⟩ := hstands (List.mem_append_right before List.mem_cons_self)
    rw [hl] at hclose
    exact ⟨rfl, hle, hclose.getElem?⟩
  | @unexpectedLexeme before d hd l hl =>
    obtain ⟨hleft, hle⟩ := hstands (List.mem_append_right before List.mem_cons_self)
    exact ⟨rfl, hle, hleft⟩

theorem points_of_readAssignment {raw : List Char} {number : Int} {e : ParseError}
    (hassign : (trim raw).head? = some assignmentSign)
    (h : readAssignment raw number = .error e) :
    e.line = number ∧ e.column ≤ raw.length ∧ e.reason.Points raw e.column := by
  have hcolumn := targetColumn_of_assignment hassign
  unfold readAssignment at h
  dsimp only at h
  split at h
  · obtain rfl := Except.error.inj h
    exact ⟨rfl, hcolumn.le_length, rfl, hcolumn⟩
  · split at h
    · obtain rfl := Except.error.inj h
      exact ⟨rfl, hcolumn.le_length, rfl, hcolumn⟩
    · cases h

theorem points_of_sentenceTokens {raw : List Char} {number : Int} {e : ParseError}
    (h : sentenceTokens raw number = .error e) :
    e.line = number ∧ e.column ≤ raw.length ∧ e.reason.Points raw e.column := by
  rcases sentenceTokens_eq_error h with ⟨column, c, hscan, rfl⟩ | ⟨ls, hscan, hrefuses⟩
  · have htiles := Lexer.tiles_scan raw 0 (Nat.zero_le _)
    rw [List.drop_zero, hscan] at htiles
    obtain ⟨-, hc, -⟩ := htiles
    obtain ⟨hlt, -⟩ := List.getElem?_eq_some_iff.mp hc
    exact ⟨rfl, Nat.le_of_lt hlt, hc⟩
  · exact points_of_refuses hscan hrefuses

/-- **The error of a line points at what it names.** -/
theorem points_of_lineTokens {raw : List Char} {number : Int} {e : ParseError}
    (h : lineTokens raw number = .error e) :
    ¬Skipped raw ∧ e.line = number ∧ e.column ≤ raw.length ∧ e.reason.Points raw e.column := by
  have hskipped : ¬Skipped raw := by
    intro hskipped
    rw [lineTokens_of_skipped hskipped] at h
    cases h
  refine ⟨hskipped, ?_⟩
  by_cases hassign : (trim raw).head? = some assignmentSign
  · rw [lineTokens_of_assignment hassign] at h
    cases hread : readAssignment raw number with
    | ok t =>
      rw [hread] at h
      cases h
    | error e' =>
      rw [hread] at h
      obtain rfl := Except.error.inj h
      exact points_of_readAssignment hassign hread
  · rw [lineTokens_of_content hskipped hassign] at h
    cases hlone : Reader.loneKind? (trim raw) with
    | some kind =>
      rw [hlone] at h
      cases h
    | none =>
      rw [hlone] at h
      exact points_of_sentenceTokens h

/-! ### The errors of formulas -/

/-- The first line that cannot be read is to blame. -/
theorem exists_line_of_linesTokens_eq_error {number : Int} {raws : List (List Char)}
    {e : ParseError} (h : linesTokens number raws = .error e) :
    ∃ above raw below tokens, raws = above ++ raw :: below ∧
      linesTokens number above = .ok tokens ∧
      lineTokens raw (number + above.length) = .error e := by
  induction raws generalizing number with
  | nil => cases h
  | cons raw rest ih =>
    rw [linesTokens] at h
    cases hraw : lineTokens raw number with
    | error e' =>
      rw [hraw] at h
      obtain rfl := Except.error.inj h
      exact ⟨[], raw, rest, [], rfl, rfl, by rwa [List.length_nil, Int.natCast_zero, Int.add_zero]⟩
    | ok here =>
      rw [hraw] at h
      cases hrest : linesTokens (number + 1) rest with
      | ok more =>
        simp only [Except.bind, Except.map, hrest] at h
        cases h
      | error e' =>
        simp only [Except.bind, Except.map, hrest] at h
        obtain rfl := Except.error.inj h
        obtain ⟨above, bad, below, tokens, rfl, habove, hbad⟩ := ih hrest
        have hnumber : number + 1 + above.length = number + (raw :: above).length := by
          rw [List.length_cons]
          omega
        refine ⟨raw :: above, bad, below, here ++ tokens, rfl, ?_, hnumber ▸ hbad⟩
        rw [linesTokens, hraw]
        simp only [Except.bind, Except.map, habove]

/-- **Errors point at what they name.**  A formula that cannot be read is blamed on one of its
lines, which is neither blank nor a comment, and on a column of that line or its end.  What the
error names stands there: an unexpected character; an unexpected lexeme, one that is no operand,
or a name that is no function; a parenthesis; the end of what is not blank, if an operand is
missing; the target of an assignment, or the end of the line if there is none.  Every line above
can be read on its own. -/
theorem Program.parse_error_points {text : String} {e : ParseError}
    (h : Program.parse text = .error e) :
    ∃ (i : Nat) (raw : List Char), (lines text.toList)[i]? = some raw ∧ e.line = i + 1 ∧
      ¬Skipped raw ∧ e.column ≤ raw.length ∧ e.reason.Points raw e.column ∧
      ∀ j < i, ∀ above, (lines text.toList)[j]? = some above →
        ∃ p, Program.parse (String.ofList above) = .ok p := by
  rw [parse_eq] at h
  cases hlines : linesTokens 1 (lines text.toList) with
  | ok tokens =>
    rw [hlines] at h
    cases h
  | error e' =>
    rw [hlines] at h
    obtain rfl := Except.error.inj h
    obtain ⟨above, raw, below, tokens, hraws, habove, hraw⟩ :=
      exists_line_of_linesTokens_eq_error hlines
    obtain ⟨hskipped, hline, hcolumn, hpoints⟩ := points_of_lineTokens hraw
    refine ⟨above.length, raw, ?_, ?_, hskipped, hcolumn, hpoints, fun j hj before hbefore => ?_⟩
    · rw [hraws, List.getElem?_append_right (Nat.le_refl _), Nat.sub_self, List.getElem?_cons_zero]
    · rw [hline, Int.add_comm]
    · have hbreaks := isLineBreak_of_mem_lines (List.mem_of_getElem? hbefore)
      rw [hraws, List.getElem?_append_left hj] at hbefore
      obtain ⟨q, hq, -⟩ := exists_parse_ofList hbreaks (filter_line_linesTokens habove hbefore)
      exact ⟨q, hq⟩

/-- The third line is to blame, at the column of the name. -/
theorem Program.parse_error_points_unknown_function :
    let text := "x\n\n\t 2+ foo(x)\n(("
    Program.parse text = .error ⟨3, 5, .unknownFunction "foo"⟩ ∧
    ∃ (i : Nat) (raw : List Char), (lines text.toList)[i]? = some raw ∧ (3 : Int) = i + 1 ∧
      ¬Skipped raw ∧ 5 ≤ raw.length ∧ Lexer.StandsAt raw 5 (.name "foo") ∧
      ∀ j < i, ∀ above, (lines text.toList)[j]? = some above →
        ∃ p, Program.parse (String.ofList above) = .ok p := by
  intro text
  have htext : Program.parse text = .error ⟨3, 5, .unknownFunction "foo"⟩ := by decide +kernel
  exact ⟨htext, Program.parse_error_points htext⟩

end Argand
