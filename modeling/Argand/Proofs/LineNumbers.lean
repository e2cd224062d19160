import Argand.Proofs.LineTokens

/-!
# Line numbers

The number of a line decides nothing: it is only written into the tokens and the errors.  A
line that stands further down is read in the same way, with all its line numbers moved by the
same amount.

## Main definitions

* `Token.shift k`, `ParseError.shift k`, `Cursor.shift k`, `Stopped.shift k`, `Line.shift k` —
  the same, `k` lines further down.
* `bimap f g r` — a result with both of its sides changed.
* `Nonterminal.Shifts n k line s` — the production of `n` reads at `s` what it would read `k`
  lines further down.

## Main results

* `Nonterminal.shifts` — **no production looks at the number of its line.**
* `lineTokens_shift`, `linesTokens_shift` — nor does the reading of lines.
-/

namespace Argand

open Text Formula

/-! ### Further down -/

/-- The token, `k` lines further down. -/
def Token.shift (k : Int) (t : Token) : Token := { t with line := t.line + k }

/-- The error, `k` lines further down. -/
def ParseError.shift (k : Int) (e : ParseError) : ParseError := { e with line := e.line + k }

/-- The line, `k` lines further down. -/
def Line.shift (k : Int) (line : Line) : Line := { line with number := line.number + k }

/-- What was written further up is written further down. -/
def Cursor.shift (k : Int) (s : Cursor) : Cursor := { s with output := s.output.map (·.shift k) }

/-- The error and the cursor, `k` lines further down. -/
def Stopped.shift (k : Int) (e : Stopped) : Stopped := ⟨e.error.shift k, e.cursor.shift k⟩

variable {k : Int} {line : Line} {s : Cursor}

@[simp] theorem Cursor.shift_unread (k : Int) (s : Cursor) : (s.shift k).unread = s.unread := rfl

theorem Cursor.shift_emit (k : Int) (s : Cursor) (line : Line) (kind : Token.Kind) :
    (s.emit line kind).shift k = (s.shift k).emit (line.shift k) kind := by
  simp [shift, emit, Token.shift, Line.shift]

theorem Cursor.shift_negateLast (k : Int) (s : Cursor) (line : Line) :
    (s.negateLast line).shift k = (s.shift k).negateLast (line.shift k) := by
  -- what was written last is a number in both places or in neither
  have hback : (s.shift k).output.back? = s.output.back?.map (·.shift k) := by
    simp [shift, Array.back?_eq_getElem?]
  unfold negateLast
  rw [hback]
  rcases s.output.back? with _ | ⟨kind, number⟩
  · exact shift_emit k s line _
  · cases kind with
    | number z => simp [shift, Token.shift, Line.shift]
    | _ => exact shift_emit k s line _

/-! ### Both sides of a result -/

variable {ε ε' α β γ δ : Type}

/-- A result with both of its sides changed. -/
def bimap (f : ε → ε') (g : α → β) : Except ε α → Except ε' β
  | .error e => .error (f e)
  | .ok a => .ok (g a)

/-- Two results in a row are changed one after the other. -/
theorem bind_bimap {f : ε → ε'} {g : α → β} {h : γ → δ} {r : Except ε α}
    {next : α → Except ε γ} {next' : β → Except ε' δ}
    (hnext : ∀ a, r = .ok a → next' (g a) = bimap f h (next a)) :
    (bimap f g r).bind next' = bimap f h (r.bind next) := by
  cases r with
  | error e => rfl
  | ok a => exact hnext a rfl

theorem map_bimap {f : ε → ε'} {g : α → β} {h : γ → δ} {step : α → γ} {step' : β → δ}
    (hstep : ∀ a, step' (g a) = h (step a)) (r : Except ε α) :
    (bimap f g r).map step' = bimap f h (r.map step) := by
  cases r with
  | error e => rfl
  | ok a => exact congrArg Except.ok (hstep a)

/-! ### Productions -/

namespace Formula.Nonterminal

/-- The production of `n` reads at `s` what it would read `k` lines further down. -/
def Shifts (n : Nonterminal) (k : Int) (line : Line) (s : Cursor) : Prop :=
  n.read (line.shift k) (s.shift k) = bimap (Stopped.shift k) (Cursor.shift k) (n.read line s)

/-- No production looks at the number of its line where less is left to be read than at
`s`. -/
def ShiftsBelow (k : Int) (line : Line) (s : Cursor) : Prop :=
  ∀ t : Cursor, t.unread.length < s.unread.length → ∀ n : Nonterminal, n.Shifts k line t

/-- An operand uses lexemes up. -/
theorem length_unread_lt_of_map {r : Except Stopped s.After} {t : Cursor}
    (h : r.map (·.val) = .ok t) : t.unread.length < s.unread.length := by
  obtain ⟨t, -, rfl⟩ := map_eq_ok_iff.mp h
  exact t.property

theorem shifts_expression (hterm : term.Shifts k line s) (ih : ShiftsBelow k line s) :
    expression.Shifts k line s := by
  rw [Shifts, read_expression_eq, read_expression_eq, hterm]
  exact bind_bimap fun t ht => ih t (length_unread_lt_of_map ht) .moreTerms

theorem shifts_moreTerms (ih : ShiftsBelow k line s) : moreTerms.Shifts k line s := by
  obtain ⟨unread, out⟩ := s
  rw [Shifts, Cursor.shift]
  cases unread with
  | nil => rw [read_moreTerms_nil, read_moreTerms_nil]; rfl
  | cons l rest =>
    cases hop : additive? l.kind with
    | none => rw [read_moreTerms_stop hop, read_moreTerms_stop hop]; rfl
    | some op =>
      have hterm := ih ⟨rest, out⟩ (Nat.lt_succ_self _) .term
      rw [Shifts, Cursor.shift] at hterm
      rw [read_moreTerms_next_eq hop, read_moreTerms_next_eq hop, hterm]
      -- further terms are read where the sign and the term are used up
      refine bind_bimap fun t ht => ?_
      have hlt : t.unread.length < rest.length := length_unread_lt_of_map (s := ⟨rest, out⟩) ht
      rw [← Cursor.shift_emit]
      exact ih (t.emit line _) (Nat.lt_succ_of_lt hlt) .moreTerms

theorem shifts_term (hsigned : signed.Shifts k line s) (ih : ShiftsBelow k line s) :
    term.Shifts k line s := by
  rw [Shifts, read_term_eq, read_term_eq, hsigned]
  exact bind_bimap fun t ht => ih t (length_unread_lt_of_map ht) .moreFactors

theorem shifts_moreFactors (ih : ShiftsBelow k line s) : moreFactors.Shifts k line s := by
  obtain ⟨unread, out⟩ := s
  rw [Shifts, Cursor.shift]
  cases unread with
  | nil => rw [read_moreFactors_nil, read_moreFactors_nil]; rfl
  | cons l rest =>
    cases hop : multiplicative? l.kind with
    | none => rw [read_moreFactors_stop hop, read_moreFactors_stop hop]; rfl
    | some op =>
      have hsigned := ih ⟨rest, out⟩ (Nat.lt_succ_self _) .signed
      rw [Shifts, Cursor.shift] at hsigned
      rw [read_moreFactors_next_eq hop, read_moreFactors_next_eq hop, hsigned]
      -- further factors are read where the sign and the factor are used up
      refine bind_bimap fun t ht => ?_
      have hlt : t.unread.length < rest.length := length_unread_lt_of_map (s := ⟨rest, out⟩) ht
      rw [← Cursor.shift_emit]
      exact ih (t.emit line _) (Nat.lt_succ_of_lt hlt) .moreFactors

theorem shifts_signed (hpower : power.Shifts k line s) (ih : ShiftsBelow k line s) :
    signed.Shifts k line s := by
  obtain ⟨unread, out⟩ := s
  rw [Shifts, Cursor.shift] at hpower ⊢
  cases unread with
  | nil => rw [read_signed_nil, read_signed_nil, hpower]
  | cons l rest =>
    cases hop : additive? l.kind with
    | none => rw [read_signed_power hop, read_signed_power hop, hpower]
    | some op =>
      obtain ⟨sign, hsign, rfl⟩ := exists_sign_of_additive? hop
      have hsigned := ih ⟨rest, out⟩ (Nat.lt_succ_self _) .signed
      rw [Shifts, Cursor.shift] at hsigned
      rw [read_signed_sign_eq sign hsign, read_signed_sign_eq sign hsign, hsigned]
      refine map_bimap (fun t => ?_) _
      cases sign with
      | plus => rfl
      | minus => exact (Cursor.shift_negateLast k t line).symm

theorem shifts_power (hatom : atom.Shifts k line s) (ih : ShiftsBelow k line s) :
    power.Shifts k line s := by
  rw [Shifts, read_power_eq, read_power_eq, hatom]
  refine bind_bimap fun t ht => ?_
  have hlt : t.unread.length < s.unread.length := length_unread_lt_of_map ht
  obtain ⟨unread, out⟩ := t
  rw [raised, raised, Cursor.shift]
  cases unread with
  | nil => rfl
  | cons l rest =>
    dsimp only
    split
    · -- the exponent stands behind the base
      have hsigned := ih ⟨rest, out⟩ (Nat.lt_of_succ_lt hlt) .signed
      rw [Shifts, Cursor.shift] at hsigned
      rw [hsigned]
      exact map_bimap (fun u => (Cursor.shift_emit k u line _).symm) _
    · rfl

theorem shift_closed (k : Int) (line : Line) (column : Nat) (t : Cursor) :
    closed (line.shift k) column (t.shift k) =
      bimap (Stopped.shift k) (Cursor.shift k) (closed line column t) := by
  unfold closed
  rw [Cursor.shift_unread]
  split <;> rfl

theorem shifts_atom (ih : ShiftsBelow k line s) : atom.Shifts k line s := by
  obtain ⟨unread, out⟩ := s
  rw [Shifts, Cursor.shift]
  cases unread with
  | nil => rw [read_atom_nil_eq, read_atom_nil_eq]; rfl
  | cons l rest =>
    have hbelow := ih ⟨rest, out⟩ (Nat.lt_succ_self _)
    cases hl : l.kind with
    | number z =>
      rw [read_atom_number hl, read_atom_number hl]
      exact congrArg Except.ok (Cursor.shift_emit k ⟨rest, out⟩ line _).symm
    | mark m =>
      by_cases hm : m = .leftParen
      · subst hm
        have hexpression := hbelow .expression
        rw [Shifts, Cursor.shift] at hexpression
        rw [read_atom_parentheses_eq hl, read_atom_parentheses_eq hl, hexpression]
        exact bind_bimap fun t _ => shift_closed k line l.column t
      · rw [read_atom_mark_eq hl hm, read_atom_mark_eq hl hm]
        rfl
    | name text =>
      cases hf : UnaryOperation.ofSymbol? text with
      | some f =>
        have hatom := hbelow .atom
        rw [Shifts, Cursor.shift] at hatom
        rw [read_atom_call_eq hl hf, read_atom_call_eq hl hf, hatom]
        exact map_bimap (fun t => (Cursor.shift_emit k t line _).symm) _
      | none =>
        rw [read_atom_name_eq hl hf, read_atom_name_eq hl hf]
        split
        · rfl
        · exact congrArg Except.ok (Cursor.shift_emit k ⟨rest, out⟩ line _).symm

/-- **No production looks at the number of its line.** -/
theorem shifts (n : Nonterminal) (k : Int) (line : Line) (s : Cursor) : n.Shifts k line s := by
  refine induction (P := fun n s => n.Shifts k line s) ?_ ?_ ?_ ?_ ?_ ?_ ?_ n s
  · exact fun _ => shifts_expression
  · exact fun _ => shifts_moreTerms
  · exact fun _ => shifts_term
  · exact fun _ => shifts_moreFactors
  · exact fun _ => shifts_signed
  · exact fun _ => shifts_power
  · exact fun _ => shifts_atom

end Formula.Nonterminal

/-! ### Lines -/

/-- What is left after an expression. -/
theorem Formula.readLexemes_eq (line : Line) (s : Cursor) :
    readLexemes line s = (Nonterminal.expression.read line s).bind fun t =>
      match t.unread with
      | [] => .ok t
      | lexeme :: _ => stopAt line t lexeme.column (leftoverReason lexeme.kind) := by
  unfold readLexemes
  simp only [Nonterminal.read]
  cases Formula.expression line s <;> rfl

theorem Formula.readLexemes_shift (k : Int) (line : Line) (s : Cursor) :
    readLexemes (line.shift k) (s.shift k) =
      bimap (Stopped.shift k) (Cursor.shift k) (readLexemes line s) := by
  rw [readLexemes_eq, readLexemes_eq, Nonterminal.shifts .expression k line s]
  refine bind_bimap fun t _ => ?_
  rw [Cursor.shift_unread]
  split <;> rfl

/-- What is read off lines, `k` lines further down. -/
def shiftResult (k : Int) : Except ParseError (List Token) → Except ParseError (List Token) :=
  bimap (ParseError.shift k) (List.map (Token.shift k))

theorem sentenceTokens_shift (k : Int) (raw : List Char) (number : Int) :
    sentenceTokens raw (number + k) = shiftResult k (sentenceTokens raw number) := by
  -- lexemes have columns but no lines, so only an error can tell where they were cut
  have hlexemes : Lexer.lexemes raw (number + k) =
      bimap (ParseError.shift k) id (Lexer.lexemes raw number) := by
    unfold Lexer.lexemes
    cases Lexer.scan 0 raw <;> rfl
  rw [sentenceTokens, sentenceTokens, hlexemes]
  refine bind_bimap fun lexemes _ => ?_
  have hread := readLexemes_shift k ⟨number, contentEnd raw⟩ ⟨lexemes, #[]⟩
  rw [Line.shift, Cursor.shift, Array.map_empty] at hread
  rw [id, hread]
  cases readLexemes ⟨number, contentEnd raw⟩ ⟨lexemes, #[]⟩ with
  | error e => rfl
  | ok c => exact congrArg Except.ok (Array.toList_map ..)

theorem readAssignment_shift (k : Int) (raw : List Char) (number : Int) :
    readAssignment raw (number + k) =
      bimap (ParseError.shift k) (Token.shift k) (readAssignment raw number) := by
  unfold readAssignment
  dsimp only
  split
  · rfl
  · split <;> rfl

/-- **A line that stands further down is read in the same way.** -/
theorem lineTokens_shift (k : Int) (raw : List Char) (number : Int) :
    lineTokens raw (number + k) = shiftResult k (lineTokens raw number) := by
  by_cases hskipped : Skipped raw
  · rw [lineTokens_of_skipped hskipped, lineTokens_of_skipped hskipped]
    rfl
  · by_cases hassign : (trim raw).head? = some assignmentSign
    · rw [lineTokens_of_assignment hassign, lineTokens_of_assignment hassign,
        readAssignment_shift]
      cases readAssignment raw number <;> rfl
    · rw [lineTokens_of_content hskipped hassign, lineTokens_of_content hskipped hassign]
      cases Reader.loneKind? (trim raw) with
      | some kind => rfl
      | none => exact sentenceTokens_shift k raw number

/-- Lines that stand further down are read in the same way. -/
theorem linesTokens_shift (k number : Int) (raws : List (List Char)) :
    linesTokens (number + k) raws = shiftResult k (linesTokens number raws) := by
  induction raws generalizing number with
  | nil => rfl
  | cons raw rest ih =>
    have hnumber : number + k + 1 = number + 1 + k := by omega
    rw [linesTokens, linesTokens, lineTokens_shift, hnumber, ih]
    refine bind_bimap fun tokens _ => ?_
    exact map_bimap (fun more => List.map_append.symm) _

end Argand
