import Argand.Proofs.Refusals

/-!
# Parentheses that are blamed

Which parentheses of a row of lexemes match is said here without the grammar.  A closing
parenthesis that is blamed never matches one.  An opening one is blamed as soon as an operand
follows the expression behind it, and then it depends on what comes after whether it is closed.

## Main definitions

* `Balanced ks` — all parentheses match.
* `ClosedIn after`, `OpenedIn before` — what follows a parenthesis closes it, what comes before one
  opens it.

## Main results

* `Balanced.closedIn`, `Balanced.openedIn` — where all parentheses match, each is closed or opened.
* `Derivation.balanced` — all parentheses of a phrase match.
* `parseLine_error_parentheses` — **a closing parenthesis is blamed only if nothing opens it, and an
  opening one only if nothing closes it or another operand follows the expression behind it.**
-/

namespace Argand

open Text

namespace Formula

/-! ### Matching -/

/-- Whether a lexeme is a parenthesis. -/
def isParenthesis : Lexeme.Kind → Bool
  | .mark .leftParen => true
  | .mark .rightParen => true
  | _ => false

/-- All parentheses match. -/
inductive Balanced : List Lexeme.Kind → Prop
  | nil : Balanced []
  /-- What is no parenthesis does not count. -/
  | other {k : Lexeme.Kind} (hk : isParenthesis k = false) {ks : List Lexeme.Kind}
      (h : Balanced ks) : Balanced (k :: ks)
  /-- Two parentheses match if all do between them. -/
  | group {inner rest : List Lexeme.Kind} (hinner : Balanced inner) (hrest : Balanced rest) :
    Balanced (.mark .leftParen :: (inner ++ .mark .rightParen :: rest))

/-- What follows an opening parenthesis closes it. -/
def ClosedIn (after : List Lexeme.Kind) : Prop :=
  ∃ inner rest, after = inner ++ .mark .rightParen :: rest ∧ Balanced inner

/-- What comes before a closing parenthesis opens it. -/
def OpenedIn (before : List Lexeme.Kind) : Prop :=
  ∃ rest inner, before = rest ++ .mark .leftParen :: inner ∧ Balanced inner

theorem OpenedIn.append_left {before : List Lexeme.Kind} (h : OpenedIn before)
    (earlier : List Lexeme.Kind) : OpenedIn (earlier ++ before) := by
  obtain ⟨rest, inner, rfl, hinner⟩ := h
  exact ⟨earlier ++ rest, inner, (List.append_assoc ..).symm, hinner⟩

theorem not_closedIn_nil : ¬ClosedIn [] := by
  rintro ⟨inner, rest, h, -⟩
  exact absurd h.symm (List.append_ne_nil_of_right_ne_nil inner (List.cons_ne_nil _ _))

namespace Balanced

variable {inner inner' rest rest' before after ks : List Lexeme.Kind}

theorem append (h : Balanced before) (h' : Balanced after) : Balanced (before ++ after) := by
  induction h with
  | nil => exact h'
  | other hk _ ih => exact .other hk ih
  | group hinner _ _ ih =>
    rw [List.cons_append, List.append_assoc, List.cons_append]
    exact .group hinner ih

/-- Only one closing parenthesis matches. -/
theorem append_rightParen_inj (h : Balanced inner) (h' : Balanced inner')
    (heq : inner ++ .mark .rightParen :: rest = inner' ++ .mark .rightParen :: rest') :
    inner = inner' ∧ rest = rest' := by
  induction h generalizing inner' rest rest' with
  | nil =>
    cases h' with
    | nil => exact ⟨rfl, (List.cons.inj heq).2⟩
    | other hk =>
      obtain ⟨rfl, -⟩ := List.cons.inj heq
      cases hk
    | group => exact absurd (List.cons.inj heq).1 (by decide)
  | other hk _ ih =>
    cases h' with
    | nil =>
      obtain ⟨rfl, -⟩ := List.cons.inj heq
      cases hk
    | other _ h' =>
      obtain ⟨rfl, htail⟩ := List.cons.inj heq
      obtain ⟨rfl, rfl⟩ := ih h' htail
      exact ⟨rfl, rfl⟩
    | group =>
      obtain ⟨rfl, -⟩ := List.cons.inj heq
      cases hk
  | group _ _ ihInner ihRest =>
    cases h' with
    | nil => exact absurd (List.cons.inj heq).1 (by decide)
    | other hk =>
      obtain ⟨rfl, -⟩ := List.cons.inj heq
      cases hk
    | group hinner' hrest' =>
      -- the parenthesis that opens first is closed first
      simp only [List.cons_append, List.append_assoc, List.cons.injEq, true_and] at heq
      obtain ⟨rfl, htail⟩ := ihInner hinner' heq
      obtain ⟨rfl, rfl⟩ := ihRest hrest' htail
      exact ⟨rfl, rfl⟩

/-- What matches on its own closes nothing. -/
theorem closedIn_append (h : Balanced inner) : ClosedIn (inner ++ rest) ↔ ClosedIn rest := by
  constructor
  · intro hclosed
    induction h with
    | nil => exact hclosed
    | other hk _ ih =>
      obtain ⟨group, more, heq, hgroup⟩ := hclosed
      cases hgroup with
      | nil =>
        obtain ⟨rfl, -⟩ := List.cons.inj heq
        cases hk
      | other _ hgroup => exact ih ⟨_, more, (List.cons.inj heq).2, hgroup⟩
      | group =>
        obtain ⟨rfl, -⟩ := List.cons.inj heq
        cases hk
    | group hfirst _ _ ih =>
      obtain ⟨group, more, heq, hgroup⟩ := hclosed
      cases hgroup with
      | nil => exact absurd (List.cons.inj heq).1 (by decide)
      | other hk =>
        obtain ⟨rfl, -⟩ := List.cons.inj heq
        cases hk
      | group hfirst' hmore =>
        simp only [List.cons_append, List.append_assoc, List.cons.injEq, true_and] at heq
        obtain ⟨-, htail⟩ := hfirst.append_rightParen_inj hfirst' heq
        exact ih ⟨_, more, htail, hmore⟩
  · rintro ⟨group, more, rfl, hgroup⟩
    exact ⟨inner ++ group, more, (List.append_assoc ..).symm, h.append hgroup⟩

theorem not_closedIn (h : Balanced ks) : ¬ClosedIn ks := by
  have hnil : ClosedIn (ks ++ []) ↔ ClosedIn [] := h.closedIn_append
  rw [List.append_nil] at hnil
  exact fun hclosed => not_closedIn_nil (hnil.mp hclosed)

/-- Where all parentheses match, each that opens is closed. -/
theorem closedIn (h : Balanced (before ++ .mark .leftParen :: after)) : ClosedIn after := by
  generalize hks : before ++ .mark .leftParen :: after = ks at h
  induction h generalizing before after with
  | nil => exact absurd hks (List.append_ne_nil_of_right_ne_nil before (List.cons_ne_nil _ _))
  | other hk _ ih =>
    cases before with
    | nil =>
      obtain ⟨rfl, -⟩ := List.cons.inj hks
      cases hk
    | cons k before => exact ih (List.cons.inj hks).2
  | @group inner rest hinner hrest ihInner ihRest =>
    cases before with
    | nil => exact ⟨inner, rest, (List.cons.inj hks).2, hinner⟩
    | cons k before =>
      obtain ⟨-, hks⟩ := List.cons.inj hks
      rcases List.append_eq_append_iff.mp hks with ⟨between, rfl, hafter⟩ | ⟨between, rfl, hafter⟩
      · cases between with
        | nil => exact absurd (List.cons.inj hafter).1 (by decide)
        | cons k between =>
          -- it stands inside the group and is closed there
          obtain ⟨rfl, rfl⟩ := List.cons.inj hafter
          obtain ⟨group, more, rfl, hgroup⟩ := ihInner rfl
          exact ⟨group, _, List.append_assoc .., hgroup⟩
      · cases between with
        | nil => exact absurd (List.cons.inj hafter).1 (by decide)
        | cons k between => exact ihRest (List.cons.inj hafter).2.symm

/-- Where all parentheses match, each that closes is opened. -/
theorem openedIn (h : Balanced (before ++ .mark .rightParen :: after)) : OpenedIn before := by
  generalize hks : before ++ .mark .rightParen :: after = ks at h
  induction h generalizing before after with
  | nil => exact absurd hks (List.append_ne_nil_of_right_ne_nil before (List.cons_ne_nil _ _))
  | other hk _ ih =>
    cases before with
    | nil =>
      obtain ⟨rfl, -⟩ := List.cons.inj hks
      cases hk
    | cons k before => exact (ih (List.cons.inj hks).2).append_left [k]
  | @group inner rest hinner hrest ihInner ihRest =>
    cases before with
    | nil => exact absurd (List.cons.inj hks).1 (by decide)
    | cons k before =>
      rw [List.cons_append, List.cons.injEq] at hks
      obtain ⟨rfl, hks⟩ := hks
      rcases List.append_eq_append_iff.mp hks with ⟨between, rfl, hafter⟩ | ⟨between, rfl, hafter⟩
      · cases between with
        | nil =>
          rw [List.append_nil] at hinner
          exact ⟨[], before, rfl, hinner⟩
        | cons k between =>
          obtain ⟨rfl, -⟩ := List.cons.inj hafter
          exact (ihInner rfl).append_left [.mark .leftParen]
      · cases between with
        | nil => exact ⟨[], inner, by rw [List.append_nil]; rfl, hinner⟩
        | cons k between =>
          -- it stands behind the group and is opened there
          obtain ⟨rfl, hrest⟩ := List.cons.inj hafter
          have hopened := ihRest hrest.symm
          have hleft := hopened.append_left (.mark .leftParen :: inner ++ [.mark .rightParen])
          rwa [List.append_assoc] at hleft

theorem not_openedIn (h : Balanced ks) : ¬OpenedIn ks := by
  rintro ⟨rest, inner, rfl, hinner⟩
  exact hinner.not_closedIn h.closedIn

end Balanced

/-! ### Phrases -/

/-- All parentheses of a phrase match. -/
theorem Derivation.balanced {n : Nonterminal} (d : Derivation n) : Balanced d.lexemes := by
  induction d with
  | expression first more ihFirst ihMore => exact ihFirst.append ihMore
  | noMoreTerms => exact .nil
  | nextTerm s next more ihNext ihMore =>
    exact .other (by cases s <;> rfl) (ihNext.append ihMore)
  | term first more ihFirst ihMore => exact ihFirst.append ihMore
  | noMoreFactors => exact .nil
  | nextFactor s next more ihNext ihMore =>
    exact .other (by cases s <;> rfl) (ihNext.append ihMore)
  | sign s operand ih => exact .other (by cases s <;> rfl) ih
  | unsigned power ih => exact ih
  | plain base ih => exact ih
  | raised base s exponent ihBase ihExponent =>
    exact ihBase.append (.other (by cases s <;> rfl) ihExponent)
  | number value => exact .other rfl .nil
  | parentheses inner ih => exact .group ih .nil
  | call f operand ih => exact .other rfl ih
  | name text hname => exact .other rfl .nil

end Formula

open Formula

/-! ### The parentheses of a line -/

/-- The lexemes of a line of which a parenthesis is blamed are no sentence. -/
theorem exists_refuses {text : String} {number : Int} {e : ParseError}
    (h : parseLine text number = .error e) (hreason : ∀ c, e.reason ≠ .unexpectedCharacter c) :
    ∃ ls, Lexer.scan 0 text.toList = .ok ls ∧
      Refuses ⟨number, contentEnd text.toList⟩ ls e := by
  rw [parseLine_eq] at h
  -- what is blank or stands alone is read
  split at h
  · cases h
  · split at h
    · cases h
    · rcases sentenceTokens_eq_error h with ⟨column, c, -, rfl⟩ | hrefuses
      · exact absurd rfl (hreason c)
      · exact hrefuses

/-- A closing parenthesis is blamed where nothing opens it. -/
theorem exists_unmatchedClose {text : String} {number : Int} {e : ParseError}
    (h : parseLine text number = .error e) (hreason : e.reason = .unmatchedClose) :
    ∃ before l after, Lexer.scan 0 text.toList = .ok (before ++ l :: after) ∧
      l.column = e.column ∧ l.kind = .mark .rightParen ∧ ¬OpenedIn (before.map (·.kind)) := by
  obtain ⟨ls, hscan, hrefuses⟩ := exists_refuses h (by rw [hreason]; exact nofun)
  cases hrefuses with
  | stops h => cases h <;> cases hreason
  | unexpectedLexeme => cases hreason
  | @unmatchedClose before d hd l hl after =>
    exact ⟨before, l, after, hscan, rfl, hl, hd ▸ d.balanced.not_openedIn⟩

/-- An opening parenthesis is blamed where the expression behind it is followed by nothing or by
another operand. -/
theorem exists_unmatchedOpen {text : String} {number : Int} {e : ParseError}
    (h : parseLine text number = .error e) (hreason : e.reason = .unmatchedOpen) :
    ∃ before l inner rest, Lexer.scan 0 text.toList = .ok (before ++ l :: (inner ++ rest)) ∧
      l.column = e.column ∧ l.kind = .mark .leftParen ∧
      (∃ d : Derivation .expression, d.lexemes = inner.map (·.kind)) ∧
      (∀ r ∈ rest.head?, startsOperand r.kind = true) ∧
      (ClosedIn ((inner ++ rest).map (·.kind)) ↔ ClosedIn (rest.map (·.kind))) := by
  obtain ⟨ls, hscan, hrefuses⟩ := exists_refuses h (by rw [hreason]; exact nofun)
  cases hrefuses with
  | unmatchedClose => cases hreason
  | unexpectedLexeme d hd hl =>
    cases hreason
  | stops h =>
    cases h with
    | missingOperand => cases hreason
    | expectedOperand => cases hreason
    | unknownFunction => cases hreason
    | @unmatchedOpen l hl before inner d hd rest hrest =>
      refine ⟨before, l, inner, rest, hscan, rfl, hl, ⟨d, hd⟩, hrest, ?_⟩
      rw [List.map_append, ← hd]
      exact d.balanced.closedIn_append

/-- **A closing parenthesis is blamed only if nothing opens it, and an opening one only if nothing
closes it or another operand follows the expression behind it.**  An opening parenthesis that is
blamed stands in front of an expression, and then the line ends or another operand starts; whatever
closes the parenthesis does so from there on.  So if all parentheses of the line match, then a
closing one is never blamed, and an opening one only for an operand that follows another. -/
theorem parseLine_error_parentheses {text : String} {number : Int} {e : ParseError}
    (h : parseLine text number = .error e) :
    (e.reason = .unmatchedClose →
      ∃ before l after, Lexer.scan 0 text.toList = .ok (before ++ l :: after) ∧
        l.column = e.column ∧ l.kind = .mark .rightParen ∧ ¬OpenedIn (before.map (·.kind))) ∧
    (e.reason = .unmatchedOpen →
      ∃ before l inner rest, Lexer.scan 0 text.toList = .ok (before ++ l :: (inner ++ rest)) ∧
        l.column = e.column ∧ l.kind = .mark .leftParen ∧
        (∃ d : Derivation .expression, d.lexemes = inner.map (·.kind)) ∧
        (∀ r ∈ rest.head?, startsOperand r.kind = true) ∧
        (ClosedIn ((inner ++ rest).map (·.kind)) ↔ ClosedIn (rest.map (·.kind)))) ∧
    ∀ ls, Lexer.scan 0 text.toList = .ok ls → Balanced (ls.map (·.kind)) →
      e.reason ≠ .unmatchedClose ∧
      (e.reason = .unmatchedOpen → ∃ before l inner r after,
        ls = before ++ l :: (inner ++ r :: after) ∧
        l.column = e.column ∧ l.kind = .mark .leftParen ∧
        (∃ d : Derivation .expression, d.lexemes = inner.map (·.kind)) ∧
        startsOperand r.kind = true) := by
  refine ⟨exists_unmatchedClose h, exists_unmatchedOpen h, fun ls hls hbalanced => ⟨?_, ?_⟩⟩
  · intro hreason
    obtain ⟨before, l, after, hscan, -, hl, hnot⟩ := exists_unmatchedClose h hreason
    obtain rfl := Except.ok.inj (hls.symm.trans hscan)
    rw [List.map_append, List.map_cons, hl] at hbalanced
    exact hnot hbalanced.openedIn
  · intro hreason
    obtain ⟨before, l, inner, rest, hscan, hcolumn, hl, hinner, hrest, hclosed⟩ :=
      exists_unmatchedOpen h hreason
    obtain rfl := Except.ok.inj (hls.symm.trans hscan)
    rw [List.map_append, List.map_cons, hl] at hbalanced
    have hrestClosed := hclosed.mp hbalanced.closedIn
    cases rest with
    | nil => exact absurd hrestClosed not_closedIn_nil
    | cons r after => exact ⟨before, l, inner, r, after, rfl, hcolumn, hl, hinner, hrest r rfl⟩

/-- The lexemes of two operands in parentheses. -/
theorem scan_two_operands : Lexer.scan 0 "(2 3)".toList = .ok [⟨.mark .leftParen, 0, 1⟩,
    ⟨.number ⟨2, 0⟩, 1, 1⟩, ⟨.number ⟨3, 0⟩, 3, 1⟩, ⟨.mark .rightParen, 4, 1⟩] := by
  decide +kernel

/-- Between the parentheses there are none. -/
theorem balanced_two_operands : Balanced [.number ⟨2, 0⟩, .number ⟨3, 0⟩] :=
  .other rfl (.other rfl .nil)

/-- The parenthesis of `(2 3)` is blamed for the second operand. -/
theorem parseLine_error_parentheses_two_operands :
    parseLine "(2 3)" 1 = .error ⟨1, 0, .unmatchedOpen⟩ ∧
    ∃ ls, Lexer.scan 0 "(2 3)".toList = .ok ls ∧ ∃ before l inner r after,
      ls = before ++ l :: (inner ++ r :: after) ∧ l.column = 0 ∧ l.kind = .mark .leftParen ∧
      (∃ d : Derivation .expression, d.lexemes = inner.map (·.kind)) ∧
      startsOperand r.kind = true := by
  have htext : parseLine "(2 3)" 1 = .error ⟨1, 0, .unmatchedOpen⟩ := by decide +kernel
  obtain ⟨-, -, hmatch⟩ := parseLine_error_parentheses htext
  have hoperand := (hmatch _ scan_two_operands (.group balanced_two_operands .nil)).2 rfl
  exact ⟨htext, _, scan_two_operands, hoperand⟩

/-- A parenthesis that is closed is blamed as one that is not. -/
theorem matched_parenthesis_blamed :
    parseLine "(2 3)" 1 = .error ⟨1, 0, .unmatchedOpen⟩ ∧
    ∃ l after, Lexer.scan 0 "(2 3)".toList = .ok (l :: after) ∧ l.column = 0 ∧
      l.kind = .mark .leftParen ∧ ClosedIn (after.map (·.kind)) ∧
      Balanced ((l :: after).map (·.kind)) :=
  ⟨by decide +kernel, _, _, scan_two_operands, rfl, rfl, ⟨_, [], rfl, balanced_two_operands⟩,
    .group balanced_two_operands .nil⟩

end Argand
