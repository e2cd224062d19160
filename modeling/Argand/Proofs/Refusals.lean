import Argand.Proofs.LineNumbers

/-!
# Why a line is refused

A production that cannot go on stops at one of the lexemes that it was given, or at the end of the
line.  An opening parenthesis is blamed if the expression behind it is followed neither by a closing
one nor by anything that would go on with it: then the line ends there, or another operand starts.

## Main definitions

* `startsOperand k` — an operand can start with the lexeme.
* `Nonterminal.EndsBefore n ls` — no phrase goes on into the lexemes.
* `StopsAt line ls e` — why the productions stop in front of lexemes.
* `Refuses line ls e` — why the lexemes of a line are no sentence.

## Main results

* `Nonterminal.reports` — **a production uses lexemes up and ends where it cannot go on, or it stops
  at one of them.**
* `refuses_of_readLexemes`, `sentenceTokens_eq_error` — **why a line is refused.**
-/

namespace Argand

open Text

namespace Formula

/-! ### Where phrases end -/

/-- Whether an operand can start with a lexeme. -/
def startsOperand : Lexeme.Kind → Bool
  | .number _ => true
  | .name _ => true
  | .mark m => m = .leftParen

/-- No phrase of `n` goes on into the lexemes.  A new operand never goes on with a phrase, whatever
it starts with. -/
def Nonterminal.EndsBefore (n : Nonterminal) (ls : List Lexeme) : Prop :=
  ∀ l ∈ ls.head?, startsOperand l.kind = true ∨ n.looseness < Formula.looseness l.kind

/-- Every lexeme but an opening parenthesis ends an atom. -/
theorem startsOperand_or_looseness_pos (k : Lexeme.Kind) :
    startsOperand k = true ∨ 0 < looseness k := by
  cases k with
  | mark m => cases m <;> decide
  | number z => exact .inl rfl
  | name text => exact .inl rfl

/-- What is no sign of the power ends a power. -/
theorem endsPower_of_isPower {k : Lexeme.Kind} (h : isPower k = false) :
    startsOperand k = true ∨ 1 < looseness k := by
  cases k with
  | mark m => cases m <;> first | decide | cases h
  | number z => exact .inl rfl
  | name text => exact .inl rfl

/-- What ends a factor and is no sign between factors ends a term. -/
theorem endsTerm_of_multiplicative? {k : Lexeme.Kind} (h : multiplicative? k = none)
    (hends : startsOperand k = true ∨ 1 < looseness k) :
    startsOperand k = true ∨ 2 < looseness k := by
  cases k with
  | mark m => cases m <;> first | decide | exact absurd hends (by decide) | exact absurd h nofun
  | number z => exact .inl rfl
  | name text => exact .inl rfl

/-- What ends a term and is no sign between terms ends an expression. -/
theorem endsExpression_of_additive? {k : Lexeme.Kind} (h : additive? k = none)
    (hends : startsOperand k = true ∨ 2 < looseness k) :
    startsOperand k = true ∨ 3 < looseness k := by
  cases k with
  | mark m => cases m <;> first | decide | exact absurd hends (by decide) | exact absurd h nofun
  | number z => exact .inl rfl
  | name text => exact .inl rfl

/-- An expression ends before a closing parenthesis or another operand. -/
theorem rightParen_or_startsOperand {k : Lexeme.Kind}
    (h : startsOperand k = true ∨ 3 < looseness k) :
    k = .mark .rightParen ∨ startsOperand k = true := by
  cases k with
  | mark m => cases m <;> first | decide | exact absurd h (by decide)
  | number z => exact .inr rfl
  | name text => exact .inr rfl

/-! ### Why reading stops -/

/-- Why the productions stop in front of lexemes. -/
inductive StopsAt (line : Line) : List Lexeme → ParseError → Prop
  /-- The line ends where an operand should stand. -/
  | missingOperand (ls : List Lexeme) :
    StopsAt line ls ⟨line.number, line.stop, .missingOperand⟩
  /-- A sign or a closing parenthesis stands where an operand should. -/
  | expectedOperand {ls : List Lexeme} {l : Lexeme} (hl : l ∈ ls) :
    StopsAt line ls ⟨line.number, l.column, .expectedOperand l.kind⟩
  /-- A name that is no function stands before a parenthesis. -/
  | unknownFunction {ls : List Lexeme} {l : Lexeme} (hl : l ∈ ls) {name : String}
      (hname : l.kind = .name name) :
    StopsAt line ls ⟨line.number, l.column, .unknownFunction name⟩
  /-- The line ends behind the expression in parentheses, or another operand starts there. -/
  | unmatchedOpen {l : Lexeme} (hl : l.kind = .mark .leftParen) (before : List Lexeme)
      {inner : List Lexeme} (d : Derivation .expression) (hd : d.lexemes = inner.map (·.kind))
      {rest : List Lexeme} (hrest : ∀ r ∈ rest.head?, startsOperand r.kind = true) :
    StopsAt line (before ++ l :: (inner ++ rest)) ⟨line.number, l.column, .unmatchedOpen⟩

/-- What stops the reading of the last lexemes stops that of all. -/
theorem StopsAt.of_suffix {line : Line} {ls ls' : List Lexeme} {e : ParseError}
    (h : StopsAt line ls e) (hls : ls <:+ ls') : StopsAt line ls' e := by
  obtain ⟨earlier, rfl⟩ := hls
  cases h with
  | missingOperand => exact .missingOperand _
  | expectedOperand hl => exact .expectedOperand (List.mem_append_right earlier hl)
  | unknownFunction hl hname => exact .unknownFunction (List.mem_append_right earlier hl) hname
  | unmatchedOpen hl before d hd hrest =>
    rw [← List.append_assoc]
    exact .unmatchedOpen hl (earlier ++ before) d hd hrest

/-- A phrase of `n` uses lexemes up and ends in front of what is left of them, or reading stops. -/
def Nonterminal.EndsOrStops (n : Nonterminal) (line : Line) (ls : List Lexeme) :
    Except Stopped Cursor → Prop
  | .ok u => u.unread <:+ ls ∧ n.EndsBefore u.unread
  | .error e => StopsAt line ls e.error

namespace Nonterminal.EndsOrStops

variable {n m : Nonterminal} {line : Line} {ls ls' : List Lexeme} {r : Except Stopped Cursor}

theorem of_suffix (h : n.EndsOrStops line ls r) (hls : ls <:+ ls') :
    n.EndsOrStops line ls' r := by
  cases r with
  | error e => exact StopsAt.of_suffix h hls
  | ok u => exact ⟨h.1.trans hls, h.2⟩

/-- One phrase behind the other. -/
theorem bind {next : Cursor → Except Stopped Cursor} (h : n.EndsOrStops line ls r)
    (hnext : ∀ t, r = .ok t → n.EndsBefore t.unread → m.EndsOrStops line t.unread (next t)) :
    m.EndsOrStops line ls (r.bind next) := by
  cases r with
  | error e => exact h
  | ok t => exact (hnext t rfl h.2).of_suffix h.1

/-- Writing uses no lexemes up. -/
theorem map {write : Cursor → Cursor} (h : n.EndsOrStops line ls r)
    (hwrite : ∀ t, (write t).unread = t.unread) : n.EndsOrStops line ls (r.map write) := by
  cases r with
  | error e => exact h
  | ok t =>
    change (write t).unread <:+ ls ∧ n.EndsBefore (write t).unread
    rw [hwrite]
    exact h

end Nonterminal.EndsOrStops

namespace Nonterminal

/-- What has ended when the production of `n` starts: further terms are read behind a term, and
further factors behind a factor. -/
def Follows : Nonterminal → List Lexeme → Prop
  | .moreTerms, ls => term.EndsBefore ls
  | .moreFactors, ls => signed.EndsBefore ls
  | _, _ => True

/-- The production of `n` at `s` uses lexemes up and ends where it cannot go on, or it stops. -/
def Reports (n : Nonterminal) (line : Line) (s : Cursor) : Prop :=
  n.Follows s.unread → n.EndsOrStops line s.unread (n.read line s)

/-- Every production reports where less is left to be read than at `s`. -/
def ReportsBelow (line : Line) (s : Cursor) : Prop := Below (fun n t => n.Reports line t) s

variable {line : Line} {s : Cursor}

theorem endsBefore_nil (n : Nonterminal) : n.EndsBefore [] := nofun

theorem endsBefore_cons {n : Nonterminal} {l : Lexeme} {rest : List Lexeme} :
    n.EndsBefore (l :: rest) ↔
      startsOperand l.kind = true ∨ n.looseness < Formula.looseness l.kind := by
  simp [EndsBefore]

/-- Every atom ends in front of what follows it. -/
theorem endsBefore_atom (ls : List Lexeme) : atom.EndsBefore ls :=
  fun l _ => startsOperand_or_looseness_pos l.kind

theorem reports_expression (hterm : term.Reports line s) (ih : ReportsBelow line s) :
    expression.Reports line s := by
  intro _
  rw [read_expression_eq]
  exact (hterm trivial).bind fun t ht hends => ih t (length_unread_lt_of_map ht) .moreTerms hends

theorem reports_moreTerms (ih : ReportsBelow line s) : moreTerms.Reports line s := by
  intro hfollows
  obtain ⟨unread, out⟩ := s
  cases unread with
  | nil =>
    rw [read_moreTerms_nil]
    exact ⟨List.suffix_rfl, endsBefore_nil _⟩
  | cons l rest =>
    cases hop : additive? l.kind with
    | none =>
      rw [read_moreTerms_stop hop]
      refine ⟨List.suffix_rfl, endsBefore_cons.mpr ?_⟩
      exact endsExpression_of_additive? hop (endsBefore_cons.mp hfollows)
    | some op =>
      rw [read_moreTerms_next_eq hop]
      have hterm := ih ⟨rest, out⟩ (Nat.lt_succ_self _) .term trivial
      refine (hterm.bind fun t ht hends => ?_).of_suffix (List.suffix_cons l rest)
      have hlt : t.unread.length < rest.length := length_unread_lt_of_map (s := ⟨rest, out⟩) ht
      exact ih (t.emit line _) (Nat.lt_succ_of_lt hlt) .moreTerms hends

theorem reports_term (hsigned : signed.Reports line s) (ih : ReportsBelow line s) :
    term.Reports line s := by
  intro _
  rw [read_term_eq]
  exact (hsigned trivial).bind fun t ht hends =>
    ih t (length_unread_lt_of_map ht) .moreFactors hends

theorem reports_moreFactors (ih : ReportsBelow line s) : moreFactors.Reports line s := by
  intro hfollows
  obtain ⟨unread, out⟩ := s
  cases unread with
  | nil =>
    rw [read_moreFactors_nil]
    exact ⟨List.suffix_rfl, endsBefore_nil _⟩
  | cons l rest =>
    cases hop : multiplicative? l.kind with
    | none =>
      rw [read_moreFactors_stop hop]
      refine ⟨List.suffix_rfl, endsBefore_cons.mpr ?_⟩
      exact endsTerm_of_multiplicative? hop (endsBefore_cons.mp hfollows)
    | some op =>
      rw [read_moreFactors_next_eq hop]
      have hsigned := ih ⟨rest, out⟩ (Nat.lt_succ_self _) .signed trivial
      refine (hsigned.bind fun t ht hends => ?_).of_suffix (List.suffix_cons l rest)
      have hlt : t.unread.length < rest.length := length_unread_lt_of_map (s := ⟨rest, out⟩) ht
      exact ih (t.emit line _) (Nat.lt_succ_of_lt hlt) .moreFactors hends

theorem reports_signed (hpower : power.Reports line s) (ih : ReportsBelow line s) :
    signed.Reports line s := by
  intro _
  have hpower := hpower trivial
  obtain ⟨unread, out⟩ := s
  cases unread with
  | nil =>
    rw [read_signed_nil]
    exact hpower
  | cons l rest =>
    cases hop : additive? l.kind with
    | none =>
      rw [read_signed_power hop]
      exact hpower
    | some op =>
      obtain ⟨sign, hsign, rfl⟩ := exists_sign_of_additive? hop
      rw [read_signed_sign_eq sign hsign]
      have hsigned := ih ⟨rest, out⟩ (Nat.lt_succ_self _) .signed trivial
      refine (hsigned.map fun t => ?_).of_suffix (List.suffix_cons l rest)
      cases sign with
      | plus => rfl
      | minus => exact t.negateLast_unread line

theorem reports_power (hatom : atom.Reports line s) (ih : ReportsBelow line s) :
    power.Reports line s := by
  intro _
  rw [read_power_eq]
  refine (hatom trivial).bind fun t ht _ => ?_
  have hlt : t.unread.length < s.unread.length := length_unread_lt_of_map ht
  obtain ⟨unread, out⟩ := t
  unfold raised
  cases unread with
  | nil => exact ⟨List.suffix_rfl, endsBefore_nil _⟩
  | cons l rest =>
    dsimp only
    split
    · have hsigned := ih ⟨rest, out⟩ (Nat.lt_of_succ_lt hlt) .signed trivial
      refine Nonterminal.EndsOrStops.of_suffix ?_ (List.suffix_cons l rest)
      exact hsigned.map fun u => u.emit_unread line _
    · next hpower =>
      refine ⟨List.suffix_rfl, endsBefore_cons.mpr ?_⟩
      exact endsPower_of_isPower (eq_false_of_ne_true hpower)

/-- A parenthesis is closed behind the expression in it, or the line ends there, or another operand
starts. -/
theorem reports_closed {l : Lexeme} {rest : List Lexeme} {out : Array Token} {t : Cursor}
    (hl : l.kind = .mark .leftParen) (ht : expression.read line ⟨rest, out⟩ = .ok t)
    (hsuffix : t.unread <:+ rest) (hends : expression.EndsBefore t.unread) :
    atom.EndsOrStops line (l :: rest) (closed line l.column t) := by
  obtain ⟨d, hd, -⟩ := sound .expression line ⟨rest, out⟩ t ht
  obtain ⟨inner, rfl⟩ := hsuffix
  obtain ⟨unread, out'⟩ := t
  have hinner : d.lexemes = inner.map (·.kind) := by
    rw [Cursor.kinds, Cursor.kinds, List.map_append] at hd
    exact (List.append_cancel_right hd).symm
  unfold closed
  split
  · next column width rest' hunread =>
    obtain rfl : unread = _ := hunread
    refine ⟨?_, endsBefore_atom rest'⟩
    exact (List.suffix_cons _ rest').trans ((List.suffix_append inner _).trans
      (List.suffix_cons l _))
  · next hopen =>
    refine .unmatchedOpen hl [] d hinner fun r hr => ?_
    refine (rightParen_or_startsOperand (hends r hr)).resolve_left fun hclose => ?_
    -- a closing parenthesis would have been used up
    obtain ⟨more, hmore⟩ := List.head?_eq_some_iff.mp hr
    obtain ⟨kind, column, width⟩ := r
    obtain rfl : kind = _ := hclose
    exact hopen column width more hmore

theorem reports_atom (ih : ReportsBelow line s) : atom.Reports line s := by
  intro _
  obtain ⟨unread, out⟩ := s
  cases unread with
  | nil =>
    rw [read_atom_nil_eq]
    exact .missingOperand []
  | cons l rest =>
    have hbelow := ih ⟨rest, out⟩ (Nat.lt_succ_self _)
    cases hl : l.kind with
    | number z =>
      rw [read_atom_number hl]
      exact ⟨List.suffix_cons l rest, endsBefore_atom rest⟩
    | mark m =>
      by_cases hm : m = .leftParen
      · subst hm
        rw [read_atom_parentheses_eq hl]
        have hexpression := hbelow .expression trivial
        cases ht : expression.read line ⟨rest, out⟩ with
        | error e =>
          rw [ht] at hexpression
          exact StopsAt.of_suffix hexpression (List.suffix_cons l rest)
        | ok t =>
          rw [ht] at hexpression
          exact reports_closed hl ht hexpression.1 hexpression.2
      · rw [read_atom_mark_eq hl hm, ← hl]
        exact .expectedOperand List.mem_cons_self
    | name text =>
      cases hf : UnaryOperation.ofSymbol? text with
      | some f =>
        rw [read_atom_call_eq hl hf]
        refine Nonterminal.EndsOrStops.of_suffix ?_ (List.suffix_cons l rest)
        exact (hbelow .atom trivial).map fun t => t.emit_unread line _
      | none =>
        rw [read_atom_name_eq hl hf]
        split
        · exact .unknownFunction List.mem_cons_self hl
        · exact ⟨List.suffix_cons l rest, endsBefore_atom rest⟩

/-- **A production uses lexemes up and ends where it cannot go on, or it stops** at one of them or
at the end of the line. -/
theorem reports (n : Nonterminal) (line : Line) (s : Cursor) : n.Reports line s := by
  refine induction (P := fun n s => n.Reports line s) ?_ ?_ ?_ ?_ ?_ ?_ ?_ n s
  · exact fun _ => reports_expression
  · exact fun _ => reports_moreTerms
  · exact fun _ => reports_term
  · exact fun _ => reports_moreFactors
  · exact fun _ => reports_signed
  · exact fun _ => reports_power
  · exact fun _ => reports_atom

end Nonterminal

/-! ### Whole lines -/

/-- Why the lexemes of a line are no sentence. -/
inductive Refuses (line : Line) : List Lexeme → ParseError → Prop
  /-- Reading stops. -/
  | stops {ls : List Lexeme} {e : ParseError} (h : StopsAt line ls e) : Refuses line ls e
  /-- A closing parenthesis stands behind an expression. -/
  | unmatchedClose {before : List Lexeme} (d : Derivation .expression)
      (hd : d.lexemes = before.map (·.kind)) {l : Lexeme} (hl : l.kind = .mark .rightParen)
      (after : List Lexeme) :
    Refuses line (before ++ l :: after) ⟨line.number, l.column, .unmatchedClose⟩
  /-- Another operand stands behind an expression. -/
  | unexpectedLexeme {before : List Lexeme} (d : Derivation .expression)
      (hd : d.lexemes = before.map (·.kind)) {l : Lexeme} (hl : startsOperand l.kind = true)
      (after : List Lexeme) :
    Refuses line (before ++ l :: after) ⟨line.number, l.column, .unexpectedLexeme l.kind⟩

/-- **Why a line is refused.**  Reading stops at one of its lexemes or at its end, or a closing
parenthesis or another operand stands behind an expression. -/
theorem refuses_of_readLexemes {line : Line} {ls : List Lexeme} {out : Array Token} {e : Stopped}
    (h : readLexemes line ⟨ls, out⟩ = .error e) : Refuses line ls e.error := by
  have hreports := Nonterminal.reports .expression line ⟨ls, out⟩ trivial
  rw [readLexemes_eq] at h
  cases ht : Nonterminal.expression.read line ⟨ls, out⟩ with
  | error e' =>
    rw [ht] at h hreports
    obtain rfl := Except.error.inj h
    exact .stops hreports
  | ok t =>
    rw [ht] at h hreports
    obtain ⟨⟨before, hbefore⟩, hends⟩ := hreports
    obtain ⟨d, hd, -⟩ := Nonterminal.sound .expression line ⟨ls, out⟩ t ht
    obtain ⟨unread, out'⟩ := t
    obtain rfl : before ++ unread = ls := hbefore
    have hsentence : d.lexemes = before.map (·.kind) := by
      rw [Cursor.kinds, Cursor.kinds, List.map_append] at hd
      exact (List.append_cancel_right hd).symm
    cases unread with
    | nil => cases h
    | cons l after =>
      obtain rfl := Except.error.inj h
      have hl := Nonterminal.endsBefore_cons.mp hends
      rcases rightParen_or_startsOperand hl with hclose | hoperand
      · rw [hclose]
        exact .unmatchedClose d hsentence hclose after
      · have hreason : leftoverReason l.kind = .unexpectedLexeme l.kind := by
          cases hkind : l.kind with
          | mark m =>
            rw [hkind] at hoperand
            cases m <;> first | rfl | cases hoperand
          | number z => rfl
          | name text => rfl
        rw [hreason]
        exact .unexpectedLexeme d hsentence hoperand after

end Formula

open Formula

/-- Why a line is no expression: no lexeme starts at a character, or its lexemes are no
sentence. -/
theorem sentenceTokens_eq_error {raw : List Char} {number : Int} {e : ParseError}
    (h : sentenceTokens raw number = .error e) :
    (∃ column c, Lexer.scan 0 raw = .error (column, c) ∧
      e = ⟨number, column, .unexpectedCharacter c⟩) ∨
    ∃ ls, Lexer.scan 0 raw = .ok ls ∧ Refuses ⟨number, contentEnd raw⟩ ls e := by
  rw [sentenceTokens, Lexer.lexemes] at h
  cases hscan : Lexer.scan 0 raw with
  | error stop =>
    rw [hscan] at h
    exact .inl ⟨stop.1, stop.2, rfl, (Except.error.inj h).symm⟩
  | ok ls =>
    rw [hscan] at h
    cases hread : readLexemes ⟨number, contentEnd raw⟩ ⟨ls, #[]⟩ with
    | ok c =>
      simp only [Except.mapError, Except.bind, hread] at h
      cases h
    | error stopped =>
      simp only [Except.mapError, Except.bind, hread] at h
      obtain rfl := Except.error.inj h
      exact .inr ⟨ls, rfl, refuses_of_readLexemes hread⟩

end Argand
