import Argand.Proofs.Grammar

/-!
# Recursive descent and the grammar

The productions read exactly the sentences of the grammar, and write the postorder
of the syntax tree that the sentence stands for.

## Main definitions

* `Cursor.kinds s` — what is still to be read.
* `Nonterminal.read n` — the production of a left side.
* `Nonterminal.Emits n line m before after` — the output grows from `before` to
  `after` by what a phrase of `n` that means `m` leaves behind.
* `Nonterminal.Sound n line s` — what the production of `n` reads at `s` is a phrase
  of `n`, and it leaves that phrase behind.

## Main results

* `Nonterminal.induction` — induction along the productions.
* `Nonterminal.sound` — **every production is sound.**
* `Derivation.exists_read_eq_ok` — **every production is complete**: it reads a
  phrase in front of anything the phrase cannot go on into.
* `accepts_iff_derivable` — a line is read if and only if it is a sentence; its
  derivation is unique, and the tokens are the postorder of its tree.
-/

namespace Argand

/-- What is still to be read. -/
def Cursor.kinds (s : Cursor) : List Lexeme.Kind := s.unread.map (·.kind)

@[simp] theorem Cursor.kinds_emit (s : Cursor) (line : Line) (k : Token.Kind) :
    (s.emit line k).kinds = s.kinds := rfl

@[simp] theorem Cursor.kinds_negateLast (s : Cursor) (line : Line) :
    (s.negateLast line).kinds = s.kinds := by
  rw [kinds, negateLast_unread, kinds]

@[simp] theorem Cursor.kinds_cons (l : Lexeme) (rest : List Lexeme) (out : Array Token) :
    (Cursor.mk (l :: rest) out).kinds = l.kind :: (Cursor.mk rest out).kinds := rfl

/-- A cursor in front of a lexeme. -/
theorem Cursor.exists_unread_eq_cons {s : Cursor} {k : Lexeme.Kind} {ks : List Lexeme.Kind}
    (h : s.kinds = k :: ks) :
    ∃ l rest out, s = ⟨l :: rest, out⟩ ∧ l.kind = k ∧ (Cursor.mk rest out).kinds = ks := by
  obtain ⟨unread, output⟩ := s
  obtain ⟨l, rest, rfl, hl, hrest⟩ := List.map_eq_cons_iff.mp h
  exact ⟨l, rest, output, rfl, hl, hrest⟩

namespace Formula

/-! ### Results that go on -/

variable {ε α β : Type}

theorem bind_eq_ok_iff {r : Except ε α} {f : α → Except ε β} {b : β} :
    r.bind f = .ok b ↔ ∃ a, r = .ok a ∧ f a = .ok b := by
  cases r <;> simp [Except.bind]

theorem map_eq_ok_iff {r : Except ε α} {f : α → β} {b : β} :
    r.map f = .ok b ↔ ∃ a, r = .ok a ∧ f a = b := by
  cases r <;> simp [Except.map]

theorem mapError_eq_ok_iff {ε' : Type} {r : Except ε α} {f : ε → ε'} {a : α} :
    r.mapError f = .ok a ↔ r = .ok a := by
  cases r with
  | error e => exact iff_of_false (fun h => by cases h) (fun h => by cases h)
  | ok b => exact ⟨fun h => congrArg _ (Except.ok.inj h), fun h => congrArg _ (Except.ok.inj h)⟩

/-! ### The productions of the left sides -/

namespace Nonterminal

/-- The production of a left side, without the promise about its unread lexemes. -/
def read : Nonterminal → Line → Cursor → Except Stopped Cursor
  | .expression, line, s => (Formula.expression line s).map (·.val)
  | .moreTerms, line, s => (Formula.moreTerms line s).map (·.val)
  | .term, line, s => (Formula.term line s).map (·.val)
  | .moreFactors, line, s => (Formula.moreFactors line s).map (·.val)
  | .signed, line, s => (Formula.signed line s).map (·.val)
  | .power, line, s => (Formula.power line s).map (·.val)
  | .atom, line, s => (Formula.atom line s).map (·.val)

variable {line : Line} {s u : Cursor} {out : Array Token} {l : Lexeme} {rest : List Lexeme}

theorem read_expression_eq :
    expression.read line s = (term.read line s).bind (moreTerms.read line) := by
  simp only [read]
  rw [Formula.expression]
  cases Formula.term line s with
  | error e => rfl
  | ok t =>
    obtain ⟨t, ht⟩ := t
    cases hu : Formula.moreTerms line t <;> simp [Except.map, Except.bind, read, hu]

theorem read_expression : expression.read line s = .ok u ↔
    ∃ t, term.read line s = .ok t ∧ moreTerms.read line t = .ok u := by
  rw [read_expression_eq, bind_eq_ok_iff]

theorem read_moreTerms_nil : moreTerms.read line ⟨[], out⟩ = .ok ⟨[], out⟩ := by
  simp only [read]
  rw [Formula.moreTerms]
  rfl

theorem read_moreTerms_stop (h : additive? l.kind = none) :
    moreTerms.read line ⟨l :: rest, out⟩ = .ok ⟨l :: rest, out⟩ := by
  simp only [read]
  rw [Formula.moreTerms]
  simp only [h]
  rfl

theorem read_moreTerms_next_eq {op : BinaryOperation} (h : additive? l.kind = some op) :
    moreTerms.read line ⟨l :: rest, out⟩ = (term.read line ⟨rest, out⟩).bind fun t =>
      moreTerms.read line (t.emit line (.operation (.binary op))) := by
  simp only [read]
  rw [Formula.moreTerms]
  simp only [h]
  cases Formula.term line ⟨rest, out⟩ with
  | error e => rfl
  | ok t =>
    obtain ⟨t, ht⟩ := t
    cases hu : Formula.moreTerms line (t.emit line (.operation (.binary op))) <;>
      simp [Except.map, Except.bind, hu]

theorem read_moreTerms_next {op : BinaryOperation} (h : additive? l.kind = some op) :
    moreTerms.read line ⟨l :: rest, out⟩ = .ok u ↔
      ∃ t, term.read line ⟨rest, out⟩ = .ok t ∧
        moreTerms.read line (t.emit line (.operation (.binary op))) = .ok u := by
  rw [read_moreTerms_next_eq h, bind_eq_ok_iff]

theorem read_term_eq :
    term.read line s = (signed.read line s).bind (moreFactors.read line) := by
  simp only [read]
  rw [Formula.term]
  cases Formula.signed line s with
  | error e => rfl
  | ok t =>
    obtain ⟨t, ht⟩ := t
    cases hu : Formula.moreFactors line t <;> simp [Except.map, Except.bind, read, hu]

theorem read_term : term.read line s = .ok u ↔
    ∃ t, signed.read line s = .ok t ∧ moreFactors.read line t = .ok u := by
  rw [read_term_eq, bind_eq_ok_iff]

theorem read_moreFactors_nil : moreFactors.read line ⟨[], out⟩ = .ok ⟨[], out⟩ := by
  simp only [read]
  rw [Formula.moreFactors]
  rfl

theorem read_moreFactors_stop (h : multiplicative? l.kind = none) :
    moreFactors.read line ⟨l :: rest, out⟩ = .ok ⟨l :: rest, out⟩ := by
  simp only [read]
  rw [Formula.moreFactors]
  simp only [h]
  rfl

theorem read_moreFactors_next_eq {op : BinaryOperation} (h : multiplicative? l.kind = some op) :
    moreFactors.read line ⟨l :: rest, out⟩ = (signed.read line ⟨rest, out⟩).bind fun t =>
      moreFactors.read line (t.emit line (.operation (.binary op))) := by
  simp only [read]
  rw [Formula.moreFactors]
  simp only [h]
  cases Formula.signed line ⟨rest, out⟩ with
  | error e => rfl
  | ok t =>
    obtain ⟨t, ht⟩ := t
    cases hu : Formula.moreFactors line (t.emit line (.operation (.binary op))) <;>
      simp [Except.map, Except.bind, hu]

theorem read_moreFactors_next {op : BinaryOperation} (h : multiplicative? l.kind = some op) :
    moreFactors.read line ⟨l :: rest, out⟩ = .ok u ↔
      ∃ t, signed.read line ⟨rest, out⟩ = .ok t ∧
        moreFactors.read line (t.emit line (.operation (.binary op))) = .ok u := by
  rw [read_moreFactors_next_eq h, bind_eq_ok_iff]

theorem read_signed_nil : signed.read line ⟨[], out⟩ = power.read line ⟨[], out⟩ := by
  simp only [read]
  rw [Formula.signed]

theorem read_signed_power (h : additive? l.kind = none) :
    signed.read line ⟨l :: rest, out⟩ = power.read line ⟨l :: rest, out⟩ := by
  simp only [read]
  rw [Formula.signed]
  simp only [h]

theorem read_signed_sign_eq (sign : AdditiveSign) (h : l.kind = sign.kind) :
    signed.read line ⟨l :: rest, out⟩ = (signed.read line ⟨rest, out⟩).map fun t =>
      match sign with
      | .plus => t
      | .minus => t.negateLast line := by
  simp only [read]
  rw [Formula.signed]
  simp only [h, additive?_kind]
  cases Formula.signed line ⟨rest, out⟩ with
  | error e => rfl
  | ok t => cases sign <;> rfl

theorem read_signed_sign (sign : AdditiveSign) (h : l.kind = sign.kind) :
    signed.read line ⟨l :: rest, out⟩ = .ok u ↔
      ∃ t, signed.read line ⟨rest, out⟩ = .ok t ∧
        u = match sign with
          | .plus => t
          | .minus => t.negateLast line := by
  rw [read_signed_sign_eq sign h, map_eq_ok_iff]
  simp only [eq_comm]

/-- Raises what was read before, if a sign of the power follows it. -/
def raised (line : Line) (t : Cursor) : Except Stopped Cursor :=
  match t.unread with
  | [] => .ok t
  | lexeme :: rest =>
    if isPower lexeme.kind then
      (signed.read line { t with unread := rest }).map (·.emit line (.operation (.binary .pow)))
    else .ok t

theorem read_power_eq : power.read line s = (atom.read line s).bind (raised line) := by
  simp only [read]
  rw [Formula.power]
  cases Formula.atom line s with
  | error e => rfl
  | ok t =>
    obtain ⟨⟨unread, output⟩, ht⟩ := t
    cases unread with
    | nil => rfl
    | cons l rest =>
      simp only [Except.map, Except.bind, raised, read]
      cases isPower l.kind with
      | false => simp
      | true => cases Formula.signed line ⟨rest, output⟩ <;> simp

theorem exists_read_atom_of_read_power (h : power.read line s = .ok u) :
    ∃ t, atom.read line s = .ok t := by
  rw [read_power_eq, bind_eq_ok_iff] at h
  obtain ⟨t, ht, -⟩ := h
  exact ⟨t, ht⟩

theorem read_power_nil (h : atom.read line s = .ok ⟨[], out⟩) :
    power.read line s = .ok ⟨[], out⟩ := by
  rw [read_power_eq, h]
  rfl

theorem read_power_plain (h : atom.read line s = .ok ⟨l :: rest, out⟩)
    (hl : isPower l.kind = false) : power.read line s = .ok ⟨l :: rest, out⟩ := by
  rw [read_power_eq, h]
  simp [Except.bind, raised, hl]

theorem read_power_raised (h : atom.read line s = .ok ⟨l :: rest, out⟩)
    (hl : isPower l.kind = true) : power.read line s = .ok u ↔
      ∃ v, signed.read line ⟨rest, out⟩ = .ok v ∧
        v.emit line (.operation (.binary .pow)) = u := by
  rw [read_power_eq, h, ← map_eq_ok_iff]
  simp [Except.bind, raised, hl]

theorem read_atom_nil_eq :
    atom.read line ⟨[], out⟩ = stopAt line ⟨[], out⟩ line.stop .missingOperand := by
  simp only [read]
  rw [Formula.atom]
  rfl

theorem read_atom_nil : atom.read line ⟨[], out⟩ ≠ .ok u := by
  simp [read_atom_nil_eq, stopAt]

theorem read_atom_number {z : ComplexNumber Float} (h : l.kind = .number z) :
    atom.read line ⟨l :: rest, out⟩ = .ok ((Cursor.mk rest out).emit line (.number z)) := by
  simp only [read]
  rw [Formula.atom]
  simp only [h]
  rfl

/-- Closes the parenthesis that was opened at a column. -/
def closed (line : Line) (column : Nat) (t : Cursor) : Except Stopped Cursor :=
  match t.unread with
  | ⟨.mark .rightParen, _, _⟩ :: rest => .ok { t with unread := rest }
  | _ => stopAt line t column .unmatchedOpen

theorem closed_eq_ok_iff {column : Nat} {t : Cursor} : closed line column t = .ok u ↔
    ∃ r, t = ⟨r :: u.unread, u.output⟩ ∧ r.kind = .mark .rightParen := by
  obtain ⟨unread, output⟩ := t
  obtain ⟨unread', output'⟩ := u
  unfold closed
  split
  · next column width rest h =>
    obtain rfl : unread = ⟨.mark .rightParen, column, width⟩ :: rest := h
    simp only [Except.ok.injEq, Cursor.mk.injEq, List.cons.injEq]
    constructor
    · rintro ⟨rfl, rfl⟩
      exact ⟨_, ⟨⟨rfl, rfl⟩, rfl⟩, rfl⟩
    · rintro ⟨r, ⟨⟨rfl, rfl⟩, rfl⟩, -⟩
      exact ⟨rfl, rfl⟩
  · next hclose =>
    simp only [stopAt, Cursor.mk.injEq, reduceCtorEq, false_iff]
    rintro ⟨⟨kind, column, width⟩, ⟨rfl, -⟩, rfl⟩
    exact hclose _ _ _ rfl

theorem read_atom_parentheses_eq (h : l.kind = .mark .leftParen) :
    atom.read line ⟨l :: rest, out⟩ =
      (expression.read line ⟨rest, out⟩).bind (closed line l.column) := by
  simp only [read]
  rw [Formula.atom]
  simp only [h]
  cases Formula.expression line ⟨rest, out⟩ with
  | error e => rfl
  | ok t =>
    obtain ⟨⟨unread, output⟩, ht⟩ := t
    cases unread with
    | nil => rfl
    | cons r rest' =>
      obtain ⟨kind, column, width⟩ := r
      cases kind with
      | number z => rfl
      | name text => rfl
      | mark m => cases m <;> rfl

theorem read_atom_parentheses (h : l.kind = .mark .leftParen) :
    atom.read line ⟨l :: rest, out⟩ = .ok u ↔
      ∃ r, expression.read line ⟨rest, out⟩ = .ok ⟨r :: u.unread, u.output⟩ ∧
        r.kind = .mark .rightParen := by
  rw [read_atom_parentheses_eq h, bind_eq_ok_iff]
  simp only [closed_eq_ok_iff]
  constructor
  · rintro ⟨_, ht, r, rfl, hr⟩
    exact ⟨r, ht, hr⟩
  · rintro ⟨r, ht, hr⟩
    exact ⟨_, ht, r, rfl, hr⟩

theorem read_atom_mark_eq {m : Mark} (h : l.kind = .mark m) (hm : m ≠ .leftParen) :
    atom.read line ⟨l :: rest, out⟩ =
      stopAt line ⟨rest, out⟩ l.column (.expectedOperand (.mark m)) := by
  simp only [read]
  rw [Formula.atom]
  cases m <;> simp_all [Except.map, stopAt]

theorem read_atom_mark {m : Mark} (h : l.kind = .mark m) (hm : m ≠ .leftParen) :
    atom.read line ⟨l :: rest, out⟩ ≠ .ok u := by
  simp [read_atom_mark_eq h hm, stopAt]

theorem read_atom_call_eq {name : String} {f : UnaryOperation} (h : l.kind = .name name)
    (hf : UnaryOperation.ofSymbol? name = some f) :
    atom.read line ⟨l :: rest, out⟩ =
      (atom.read line ⟨rest, out⟩).map (·.emit line (.operation (.unary f))) := by
  simp only [read]
  rw [Formula.atom]
  simp only [h, hf]
  cases Formula.atom line ⟨rest, out⟩ <;> rfl

theorem read_atom_call {name : String} {f : UnaryOperation} (h : l.kind = .name name)
    (hf : UnaryOperation.ofSymbol? name = some f) :
    atom.read line ⟨l :: rest, out⟩ = .ok u ↔
      ∃ t, atom.read line ⟨rest, out⟩ = .ok t ∧ t.emit line (.operation (.unary f)) = u := by
  rw [read_atom_call_eq h hf, map_eq_ok_iff]

theorem read_atom_name_eq {name : String} (h : l.kind = .name name)
    (hf : UnaryOperation.ofSymbol? name = none) :
    atom.read line ⟨l :: rest, out⟩ =
      if opensNext rest then stopAt line ⟨rest, out⟩ l.column (.unknownFunction name)
      else .ok ((Cursor.mk rest out).emit line (nameKind name)) := by
  simp only [read]
  rw [Formula.atom]
  simp only [h, hf]
  cases opensNext rest <;> rfl

theorem read_atom_name {name : String} (h : l.kind = .name name)
    (hf : UnaryOperation.ofSymbol? name = none) :
    atom.read line ⟨l :: rest, out⟩ = .ok u ↔
      opensNext rest = false ∧ (Cursor.mk rest out).emit line (nameKind name) = u := by
  rw [read_atom_name_eq h hf]
  cases opensNext rest <;> simp [stopAt]

end Nonterminal

/-! ### What is written -/

theorem Tree.tokens_operator (line : Int) (op : BinaryOperation) (l r : Tree) :
    (Tree.operator op l r).tokens line =
      l.tokens line ++ r.tokens line ++ [⟨.operation (.binary op), line⟩] := by
  simp [tokens, postorder]

theorem Tree.tokens_function (line : Int) (f : UnaryOperation) (t : Tree) :
    (Tree.function f t).tokens line = t.tokens line ++ [⟨.operation (.unary f), line⟩] := by
  simp [tokens, postorder]

/-- A literal is negated at once. -/
theorem Tree.tokens_minus_of_literal? (line : Int) {t : Tree} {z : ComplexNumber Float}
    (h : t.literal? = some z) : (Tree.minus t).tokens line = [⟨.number z.neg, line⟩] := by
  rw [tokens, postorder, h]
  rfl

/-- Anything else is negated by an operation. -/
theorem Tree.tokens_minus (line : Int) {t : Tree} (h : t.literal? = none) :
    (Tree.minus t).tokens line = t.tokens line ++ [⟨.operation (.unary .neg), line⟩] := by
  simp [tokens, postorder, h]

/-- Negating the last token negates the operand that was written last: a number only
stands at the end if it is all of a literal. -/
theorem toList_output_negateLast {s : Cursor} {line : Line} {before : List Token} {t : Tree}
    (h : s.output.toList = before ++ t.tokens line.number) :
    (s.negateLast line).output.toList = before ++ (Tree.minus t).tokens line.number := by
  have hback : s.output.back? = s.output.toList.getLast? := by simp
  cases hz : t.literal? with
  | some z =>
    rw [Tree.tokens, Tree.postorder_of_literal? hz] at h
    rw [h] at hback
    simp only [List.map_cons, List.map_nil, List.getLast?_concat] at hback
    unfold Cursor.negateLast
    rw [hback]
    simp [h, Tree.tokens_minus_of_literal? _ hz]
  | none =>
    obtain ⟨ks, k, hks, hk⟩ := Tree.exists_postorder_eq_concat hz
    have hlast : s.output.back? = some ⟨k, line.number⟩ := by
      rw [hback, h, Tree.tokens, hks]
      simp
    have hemit : s.negateLast line = s.emit line (.operation (.unary .neg)) := by
      unfold Cursor.negateLast
      rw [hlast]
      cases k <;> simp_all
    rw [hemit, Cursor.emit_output, Array.toList_push, h, Tree.tokens_minus _ hz, List.append_assoc]

namespace Nonterminal

/-- The output grows from `before` to `after` by what a phrase with a given meaning
leaves behind.  Further terms and factors take the operand on their left into
theirs. -/
def Emits (line : Int) (before after : List Token) : (n : Nonterminal) → n.Meaning → Prop
  | .expression, t => after = before ++ Tree.tokens line t
  | .moreTerms, go => ∀ earlier left, before = earlier ++ Tree.tokens line left →
      after = earlier ++ Tree.tokens line (go left)
  | .term, t => after = before ++ Tree.tokens line t
  | .moreFactors, go => ∀ earlier left, before = earlier ++ Tree.tokens line left →
      after = earlier ++ Tree.tokens line (go left)
  | .signed, t => after = before ++ Tree.tokens line t
  | .power, t => after = before ++ Tree.tokens line t
  | .atom, t => after = before ++ Tree.tokens line t

/-- What the production of `n` reads at `s` is a phrase of `n`, and it leaves that
phrase behind. -/
def Sound (n : Nonterminal) (line : Line) (s : Cursor) : Prop :=
  ∀ u, n.read line s = .ok u → ∃ d : Derivation n,
    s.kinds = d.lexemes ++ u.kinds ∧ n.Emits line.number s.output.toList u.output.toList d.tree

end Nonterminal

/-! ### Induction along the productions -/

namespace Nonterminal

/-- `P` holds of every production where less is left to be read than at `s`. -/
def Below (P : Nonterminal → Cursor → Prop) (s : Cursor) : Prop :=
  ∀ t : Cursor, t.unread.length < s.unread.length → ∀ n : Nonterminal, P n t

/-- What holds of a production if it holds of the one that it calls at the same place, and of all
that it calls where less is left to be read, holds of all of them. -/
theorem induction {P : Nonterminal → Cursor → Prop}
    (hexpression : ∀ s, P .term s → Below P s → P .expression s)
    (hmoreTerms : ∀ s, Below P s → P .moreTerms s)
    (hterm : ∀ s, P .signed s → Below P s → P .term s)
    (hmoreFactors : ∀ s, Below P s → P .moreFactors s)
    (hsigned : ∀ s, P .power s → Below P s → P .signed s)
    (hpower : ∀ s, P .atom s → Below P s → P .power s)
    (hatom : ∀ s, Below P s → P .atom s) (n : Nonterminal) (s : Cursor) : P n s := by
  -- by how much is left to be read; only parentheses and signs come back to a
  -- looser phrase, and they are used up before
  induction hlen : s.unread.length using Nat.strongRecOn generalizing n s with
  | ind m ih =>
    have below : Below P s := fun t ht k => ih _ (hlen ▸ ht) k t rfl
    have hatomHere := hatom s below
    have hpowerHere := hpower s hatomHere below
    have hsignedHere := hsigned s hpowerHere below
    have htermHere := hterm s hsignedHere below
    cases n with
    | expression => exact hexpression s htermHere below
    | moreTerms => exact hmoreTerms s below
    | term => exact htermHere
    | moreFactors => exact hmoreFactors s below
    | signed => exact hsignedHere
    | power => exact hpowerHere
    | atom => exact hatomHere

end Nonterminal

/-! ### Soundness -/

namespace Derivation

/-- An atom has a lexeme. -/
theorem length_lexemes_pos_of_atom (d : Derivation .atom) : 0 < d.lexemes.length := by
  cases d <;> simp [lexemes]

theorem length_lexemes_pos_of_power (d : Derivation .power) : 0 < d.lexemes.length := by
  cases d with
  | plain base => exact base.length_lexemes_pos_of_atom
  | raised base s exponent =>
    rw [lexemes, List.length_append, List.length_cons]
    omega

theorem length_lexemes_pos_of_signed (d : Derivation .signed) : 0 < d.lexemes.length := by
  cases d with
  | sign s operand => simp [lexemes]
  | unsigned power => exact power.length_lexemes_pos_of_power

theorem length_lexemes_pos_of_term (d : Derivation .term) : 0 < d.lexemes.length := by
  cases d with
  | term first more =>
    have := first.length_lexemes_pos_of_signed
    rw [lexemes, List.length_append]
    omega

end Derivation

/-- What follows a phrase is shorter, unless the phrase is empty. -/
theorem length_unread_lt {s t : Cursor} {ks : List Lexeme.Kind} (h : s.kinds = ks ++ t.kinds)
    (hks : 0 < ks.length) : t.unread.length < s.unread.length := by
  have := congrArg List.length h
  simp only [Cursor.kinds, List.length_map, List.length_append] at this
  omega

namespace Nonterminal

variable {line : Line} {s : Cursor}

/-- Every production is sound where less is left to be read than at `s`. -/
def SoundBelow (line : Line) (s : Cursor) : Prop :=
  ∀ t : Cursor, t.unread.length < s.unread.length → ∀ n : Nonterminal, n.Sound line t

theorem sound_expression (hterm : term.Sound line s) (ih : SoundBelow line s) :
    expression.Sound line s := by
  intro u hu
  obtain ⟨t, ht, hmore⟩ := read_expression.mp hu
  obtain ⟨first, hfirst, hout⟩ := hterm t ht
  have hlt := length_unread_lt hfirst first.length_lexemes_pos_of_term
  obtain ⟨more, hks, hmoreOut⟩ := ih t hlt .moreTerms u hmore
  refine ⟨.expression first more, ?_, hmoreOut _ _ hout⟩
  rw [hfirst, hks, Derivation.lexemes, List.append_assoc]

/-- What is written between an operand and the operation that follows the next one. -/
theorem output_emit_operation {t : Cursor} {op : BinaryOperation} {left right : Tree}
    {before earlier : List Token} (hleft : before = earlier ++ left.tokens line.number)
    (hout : t.output.toList = before ++ right.tokens line.number) :
    (t.emit line (.operation (.binary op))).output.toList =
      earlier ++ (Tree.operator op left right).tokens line.number := by
  rw [Cursor.emit_output, Array.toList_push, hout, hleft, Tree.tokens_operator]
  simp

theorem sound_moreTerms (ih : SoundBelow line s) : moreTerms.Sound line s := by
  intro u hu
  obtain ⟨unread, out⟩ := s
  cases unread with
  | nil =>
    rw [read_moreTerms_nil] at hu
    obtain rfl := Except.ok.inj hu
    exact ⟨.noMoreTerms, rfl, fun earlier left h => h⟩
  | cons l rest =>
    cases hop : additive? l.kind with
    | none =>
      rw [read_moreTerms_stop hop] at hu
      obtain rfl := Except.ok.inj hu
      exact ⟨.noMoreTerms, rfl, fun earlier left h => h⟩
    | some op =>
      obtain ⟨sign, hsign, rfl⟩ := exists_sign_of_additive? hop
      obtain ⟨t, ht, hmore⟩ := (read_moreTerms_next hop).mp hu
      obtain ⟨next, hnext, hout⟩ := ih ⟨rest, out⟩ (Nat.lt_succ_self _) .term t ht
      have hlt := length_unread_lt hnext next.length_lexemes_pos_of_term
      obtain ⟨more, hks, hmoreOut⟩ := ih (t.emit line _) (Nat.lt_succ_of_lt hlt) .moreTerms u hmore
      refine ⟨.nextTerm sign next more, ?_, ?_⟩
      · rw [Cursor.kinds_cons, hsign, hnext, ← Cursor.kinds_emit, hks, Derivation.lexemes,
          List.cons_append, List.append_assoc]
      · intro earlier left hleft
        exact hmoreOut earlier (.operator sign.operation left next.tree)
          (output_emit_operation hleft hout)

theorem sound_term (hsigned : signed.Sound line s) (ih : SoundBelow line s) :
    term.Sound line s := by
  intro u hu
  obtain ⟨t, ht, hmore⟩ := read_term.mp hu
  obtain ⟨first, hfirst, hout⟩ := hsigned t ht
  have hlt := length_unread_lt hfirst first.length_lexemes_pos_of_signed
  obtain ⟨more, hks, hmoreOut⟩ := ih t hlt .moreFactors u hmore
  refine ⟨.term first more, ?_, hmoreOut _ _ hout⟩
  rw [hfirst, hks, Derivation.lexemes, List.append_assoc]

theorem sound_moreFactors (ih : SoundBelow line s) : moreFactors.Sound line s := by
  intro u hu
  obtain ⟨unread, out⟩ := s
  cases unread with
  | nil =>
    rw [read_moreFactors_nil] at hu
    obtain rfl := Except.ok.inj hu
    exact ⟨.noMoreFactors, rfl, fun earlier left h => h⟩
  | cons l rest =>
    cases hop : multiplicative? l.kind with
    | none =>
      rw [read_moreFactors_stop hop] at hu
      obtain rfl := Except.ok.inj hu
      exact ⟨.noMoreFactors, rfl, fun earlier left h => h⟩
    | some op =>
      obtain ⟨sign, hsign, rfl⟩ := exists_sign_of_multiplicative? hop
      obtain ⟨t, ht, hmore⟩ := (read_moreFactors_next hop).mp hu
      obtain ⟨next, hnext, hout⟩ := ih ⟨rest, out⟩ (Nat.lt_succ_self _) .signed t ht
      have hlt := length_unread_lt hnext next.length_lexemes_pos_of_signed
      obtain ⟨more, hks, hmoreOut⟩ :=
        ih (t.emit line _) (Nat.lt_succ_of_lt hlt) .moreFactors u hmore
      refine ⟨.nextFactor sign next more, ?_, ?_⟩
      · rw [Cursor.kinds_cons, hsign, hnext, ← Cursor.kinds_emit, hks, Derivation.lexemes,
          List.cons_append, List.append_assoc]
      · intro earlier left hleft
        exact hmoreOut earlier (.operator sign.operation left next.tree)
          (output_emit_operation hleft hout)

theorem sound_signed (hpower : power.Sound line s) (ih : SoundBelow line s) :
    signed.Sound line s := by
  intro u hu
  obtain ⟨unread, out⟩ := s
  cases unread with
  | nil =>
    rw [read_signed_nil] at hu
    obtain ⟨d, hks, hout⟩ := hpower u hu
    exact ⟨.unsigned d, hks, hout⟩
  | cons l rest =>
    cases hop : additive? l.kind with
    | none =>
      rw [read_signed_power hop] at hu
      obtain ⟨d, hks, hout⟩ := hpower u hu
      exact ⟨.unsigned d, hks, hout⟩
    | some op =>
      obtain ⟨sign, hsign, rfl⟩ := exists_sign_of_additive? hop
      obtain ⟨t, ht, htu⟩ := (read_signed_sign sign hsign).mp hu
      obtain ⟨d, hks, hout⟩ := ih ⟨rest, out⟩ (Nat.lt_succ_self _) .signed t ht
      cases sign with
      | plus =>
        obtain rfl : u = t := htu
        refine ⟨.sign .plus d, ?_, hout⟩
        rw [Cursor.kinds_cons, hsign, hks, Derivation.lexemes, List.cons_append]
      | minus =>
        obtain rfl : u = t.negateLast line := htu
        refine ⟨.sign .minus d, ?_, toList_output_negateLast hout⟩
        rw [Cursor.kinds_cons, hsign, hks, Derivation.lexemes, List.cons_append,
          Cursor.kinds_negateLast]

theorem sound_power (hatom : atom.Sound line s) (ih : SoundBelow line s) :
    power.Sound line s := by
  intro u hu
  obtain ⟨t, ht⟩ := exists_read_atom_of_read_power hu
  obtain ⟨base, hks, hout⟩ := hatom t ht
  have hlt := length_unread_lt hks base.length_lexemes_pos_of_atom
  obtain ⟨unread, out⟩ := t
  cases unread with
  | nil =>
    rw [read_power_nil ht] at hu
    obtain rfl := Except.ok.inj hu
    exact ⟨.plain base, hks, hout⟩
  | cons l rest =>
    cases hl : isPower l.kind with
    | false =>
      rw [read_power_plain ht hl] at hu
      obtain rfl := Except.ok.inj hu
      exact ⟨.plain base, hks, hout⟩
    | true =>
      obtain ⟨sign, hsign⟩ := exists_sign_of_isPower hl
      obtain ⟨v, hv, rfl⟩ := (read_power_raised ht hl).mp hu
      obtain ⟨exponent, hrest, hexpOut⟩ :=
        ih ⟨rest, out⟩ (Nat.lt_of_succ_lt hlt) .signed v hv
      refine ⟨.raised base sign exponent, ?_, output_emit_operation hout hexpOut⟩
      rw [hks, Cursor.kinds_cons, hsign, hrest, Cursor.kinds_emit, Derivation.lexemes,
        List.append_assoc, List.cons_append]

theorem sound_atom (ih : SoundBelow line s) : atom.Sound line s := by
  intro u hu
  obtain ⟨unread, out⟩ := s
  cases unread with
  | nil => exact absurd hu read_atom_nil
  | cons l rest =>
    cases hl : l.kind with
    | number z =>
      rw [read_atom_number hl] at hu
      obtain rfl := Except.ok.inj hu
      refine ⟨.number z, ?_, Array.toList_push⟩
      rw [Cursor.kinds_cons, hl]
      rfl
    | mark m =>
      by_cases hm : m = .leftParen
      · subst hm
        obtain ⟨r, hr, hclose⟩ := (read_atom_parentheses hl).mp hu
        obtain ⟨inner, hks, hout⟩ := ih ⟨rest, out⟩ (Nat.lt_succ_self _) .expression _ hr
        refine ⟨.parentheses inner, ?_, hout⟩
        rw [Cursor.kinds_cons, hl, hks, Cursor.kinds_cons, hclose, Derivation.lexemes]
        simp
      · exact absurd hu (read_atom_mark hl hm)
    | name text =>
      cases hf : UnaryOperation.ofSymbol? text with
      | some f =>
        obtain ⟨t, ht, rfl⟩ := (read_atom_call hl hf).mp hu
        obtain ⟨d, hks, hout⟩ := ih ⟨rest, out⟩ (Nat.lt_succ_self _) .atom t ht
        refine ⟨.call f d, ?_, ?_⟩
        · rw [Cursor.kinds_cons, hl, hks, Derivation.lexemes,
            UnaryOperation.ofSymbol?_eq_some_iff.mp hf, Cursor.kinds_emit, List.cons_append]
        · rw [Emits, Cursor.emit_output, Array.toList_push, hout, Derivation.tree,
            Tree.tokens_function, List.append_assoc]
      | none =>
        obtain ⟨-, rfl⟩ := (read_atom_name hl hf).mp hu
        refine ⟨.name text (UnaryOperation.ofSymbol?_eq_none_iff.mp hf), ?_, ?_⟩
        · rw [Cursor.kinds_cons, hl]
          rfl
        · rw [Emits, Cursor.emit_output, Array.toList_push, Derivation.tree, Tree.tokens,
            Tree.postorder_ofName]
          rfl

/-- **Every production is sound.**  What it reads is a phrase, and it writes the
postorder of the syntax tree the phrase stands for. -/
theorem sound (n : Nonterminal) (line : Line) (s : Cursor) : n.Sound line s := by
  refine induction (P := fun n s => n.Sound line s) ?_ ?_ ?_ ?_ ?_ ?_ ?_ n s
  · exact fun _ => sound_expression
  · exact fun _ => sound_moreTerms
  · exact fun _ => sound_term
  · exact fun _ => sound_moreFactors
  · exact fun _ => sound_signed
  · exact fun _ => sound_power
  · exact fun _ => sound_atom

end Nonterminal

/-! ### Completeness -/

/-- A sign between terms goes on with a sum. -/
theorem additive?_eq_none {k : Lexeme.Kind} (h : 3 < looseness k) : additive? k = none := by
  unfold additive?
  split
  · exact absurd h (by decide)
  · exact absurd h (by decide)
  · rfl

/-- A sign between factors goes on with a product. -/
theorem multiplicative?_eq_none {k : Lexeme.Kind} (h : 2 < looseness k) :
    multiplicative? k = none := by
  unfold multiplicative?
  split
  · exact absurd h (by decide)
  · exact absurd h (by decide)
  · rfl

/-- A sign of the power goes on with an atom. -/
theorem isPower_eq_false {k : Lexeme.Kind} (h : 1 < looseness k) : isPower k = false := by
  unfold isPower
  split
  · exact absurd h (by decide)
  · exact absurd h (by decide)
  · rfl

/-- Only a parenthesis would make a name the name of a function. -/
theorem opensNext_eq_false {rest : List Lexeme}
    (h : Nonterminal.atom.StopsBefore (rest.map (·.kind))) : opensNext rest = false := by
  unfold opensNext
  split
  · exact absurd (Nonterminal.stopsBefore_cons.mp h) (Nat.not_lt_zero _)
  · rfl

namespace Derivation

/-- A signed operand that is a power is read as one. -/
theorem read_signed_of_power (d : Derivation .power) {line : Line} {s : Cursor}
    {ks : List Lexeme.Kind} (h : s.kinds = d.lexemes ++ ks) :
    Nonterminal.signed.read line s = Nonterminal.power.read line s := by
  obtain ⟨k, rest, hd, hk⟩ := d.exists_lexemes_eq_cons_of_power
  rw [hd, List.cons_append] at h
  obtain ⟨l, rest, out, rfl, rfl, -⟩ := Cursor.exists_unread_eq_cons h
  exact Nonterminal.read_signed_power hk

/-- **Every production is complete.**  It reads a phrase in front of anything the
phrase cannot go on into, and stops there. -/
theorem exists_read_eq_ok (line : Line) : ∀ {n : Nonterminal} (d : Derivation n) (s : Cursor)
    (ks : List Lexeme.Kind), s.kinds = d.lexemes ++ ks → n.StopsBefore ks →
      ∃ u, n.read line s = .ok u ∧ u.kinds = ks := by
  intro n d
  induction d with
  | expression first more ihFirst ihMore =>
    intro s ks h hks
    rw [lexemes, List.append_assoc] at h
    obtain ⟨t, ht, htks⟩ := ihFirst s _ h (Nonterminal.StopsBefore.term hks)
    obtain ⟨u, hu, huks⟩ := ihMore t ks htks hks
    exact ⟨u, Nonterminal.read_expression.mpr ⟨t, ht, hu⟩, huks⟩
  | noMoreTerms =>
    intro s ks h hks
    refine ⟨s, ?_, h⟩
    obtain ⟨unread, out⟩ := s
    cases unread with
    | nil => exact Nonterminal.read_moreTerms_nil
    | cons l rest =>
      rw [lexemes, List.nil_append] at h
      rw [← h, Cursor.kinds_cons, Nonterminal.stopsBefore_cons] at hks
      exact Nonterminal.read_moreTerms_stop (additive?_eq_none hks)
  | nextTerm sign next more ihNext ihMore =>
    intro s ks h hks
    rw [lexemes, List.cons_append, List.append_assoc] at h
    obtain ⟨l, rest, out, rfl, hl, hrest⟩ := Cursor.exists_unread_eq_cons h
    obtain ⟨t, ht, htks⟩ := ihNext _ _ hrest (Nonterminal.StopsBefore.term hks)
    obtain ⟨u, hu, huks⟩ := ihMore (t.emit line (.operation (.binary sign.operation))) ks htks hks
    have hop : additive? l.kind = some sign.operation := by rw [hl, additive?_kind]
    refine ⟨u, ?_, huks⟩
    exact (Nonterminal.read_moreTerms_next hop).mpr ⟨t, ht, hu⟩
  | term first more ihFirst ihMore =>
    intro s ks h hks
    rw [lexemes, List.append_assoc] at h
    obtain ⟨t, ht, htks⟩ := ihFirst s _ h (Nonterminal.StopsBefore.signed hks)
    obtain ⟨u, hu, huks⟩ := ihMore t ks htks hks
    exact ⟨u, Nonterminal.read_term.mpr ⟨t, ht, hu⟩, huks⟩
  | noMoreFactors =>
    intro s ks h hks
    refine ⟨s, ?_, h⟩
    obtain ⟨unread, out⟩ := s
    cases unread with
    | nil => exact Nonterminal.read_moreFactors_nil
    | cons l rest =>
      rw [lexemes, List.nil_append] at h
      rw [← h, Cursor.kinds_cons, Nonterminal.stopsBefore_cons] at hks
      exact Nonterminal.read_moreFactors_stop (multiplicative?_eq_none hks)
  | nextFactor sign next more ihNext ihMore =>
    intro s ks h hks
    rw [lexemes, List.cons_append, List.append_assoc] at h
    obtain ⟨l, rest, out, rfl, hl, hrest⟩ := Cursor.exists_unread_eq_cons h
    obtain ⟨t, ht, htks⟩ := ihNext _ _ hrest (Nonterminal.StopsBefore.signed hks)
    obtain ⟨u, hu, huks⟩ := ihMore (t.emit line (.operation (.binary sign.operation))) ks htks hks
    have hop : multiplicative? l.kind = some sign.operation := by rw [hl, multiplicative?_kind]
    refine ⟨u, ?_, huks⟩
    exact (Nonterminal.read_moreFactors_next hop).mpr ⟨t, ht, hu⟩
  | sign sign operand ih =>
    intro s ks h hks
    rw [lexemes, List.cons_append] at h
    obtain ⟨l, rest, out, rfl, hl, hrest⟩ := Cursor.exists_unread_eq_cons h
    obtain ⟨t, ht, htks⟩ := ih _ _ hrest hks
    cases sign with
    | plus => exact ⟨t, (Nonterminal.read_signed_sign .plus hl).mpr ⟨t, ht, rfl⟩, htks⟩
    | minus =>
      refine ⟨t.negateLast line, ?_, ?_⟩
      · exact (Nonterminal.read_signed_sign .minus hl).mpr ⟨t, ht, rfl⟩
      · rw [Cursor.kinds_negateLast, htks]
  | unsigned power ih =>
    intro s ks h hks
    obtain ⟨u, hu, huks⟩ := ih s ks h hks
    exact ⟨u, (read_signed_of_power power h).trans hu, huks⟩
  | plain base ih =>
    intro s ks h hks
    obtain ⟨u, hu, huks⟩ := ih s ks h (hks.tighter (by decide))
    refine ⟨u, ?_, huks⟩
    obtain ⟨unread, out⟩ := u
    cases unread with
    | nil => exact Nonterminal.read_power_nil hu
    | cons l rest =>
      rw [← huks, Cursor.kinds_cons, Nonterminal.stopsBefore_cons] at hks
      exact Nonterminal.read_power_plain hu (isPower_eq_false hks)
  | raised base sign exponent ihBase ihExponent =>
    intro s ks h hks
    rw [lexemes, List.append_assoc, List.cons_append] at h
    obtain ⟨t, ht, htks⟩ := ihBase s _ h (by simp [Nonterminal.looseness])
    obtain ⟨l, rest, out, rfl, hl, hrest⟩ := Cursor.exists_unread_eq_cons htks
    obtain ⟨v, hv, hvks⟩ := ihExponent _ _ hrest hks
    have hpower : isPower l.kind = true := by rw [hl, isPower_kind]
    exact ⟨_, (Nonterminal.read_power_raised ht hpower).mpr ⟨v, hv, rfl⟩, hvks⟩
  | number z =>
    intro s ks h hks
    rw [lexemes, List.cons_append, List.nil_append] at h
    obtain ⟨l, rest, out, rfl, hl, hrest⟩ := Cursor.exists_unread_eq_cons h
    exact ⟨_, Nonterminal.read_atom_number hl, hrest⟩
  | parentheses inner ih =>
    intro s ks h hks
    rw [lexemes, List.cons_append, List.append_assoc] at h
    obtain ⟨l, rest, out, rfl, hl, hrest⟩ := Cursor.exists_unread_eq_cons h
    obtain ⟨t, ht, htks⟩ := ih _ _ hrest (by simp [Nonterminal.looseness])
    obtain ⟨r, rest', out', rfl, hr, hrest'⟩ := Cursor.exists_unread_eq_cons htks
    exact ⟨⟨rest', out'⟩, (Nonterminal.read_atom_parentheses hl).mpr ⟨r, ht, hr⟩, hrest'⟩
  | call f operand ih =>
    intro s ks h hks
    rw [lexemes, List.cons_append] at h
    obtain ⟨l, rest, out, rfl, hl, hrest⟩ := Cursor.exists_unread_eq_cons h
    obtain ⟨t, ht, htks⟩ := ih _ _ hrest hks
    exact ⟨_, (Nonterminal.read_atom_call hl (UnaryOperation.ofSymbol?_symbol f)).mpr
      ⟨t, ht, rfl⟩, htks⟩
  | name text notFunction =>
    intro s ks h hks
    rw [lexemes, List.cons_append, List.nil_append] at h
    obtain ⟨l, rest, out, rfl, hl, rfl⟩ := Cursor.exists_unread_eq_cons h
    have hname := UnaryOperation.ofSymbol?_eq_none_iff.mpr notFunction
    exact ⟨_, (Nonterminal.read_atom_name hl hname).mpr ⟨opensNext_eq_false hks, rfl⟩, rfl⟩

end Derivation

/-! ### Whole lines -/

/-- A line is read if nothing is left after an expression. -/
theorem readLexemes_eq_ok_iff {line : Line} {s c : Cursor} :
    readLexemes line s = .ok c ↔
      Nonterminal.expression.read line s = .ok c ∧ c.unread = [] := by
  simp only [Nonterminal.read]
  unfold readLexemes
  cases Formula.expression line s with
  | error e => simp [Except.map]
  | ok t =>
    obtain ⟨⟨unread, output⟩, ht⟩ := t
    cases unread with
    | nil =>
      simp only [Except.map, Except.ok.injEq]
      constructor
      · rintro rfl
        exact ⟨rfl, rfl⟩
      · rintro ⟨rfl, -⟩
        rfl
    | cons l rest =>
      simp only [Except.map, Except.ok.injEq, stopAt]
      constructor
      · intro h
        exact absurd h (by simp)
      · rintro ⟨rfl, h⟩
        exact absurd h (by simp)

/-- What is read off a line is a sentence, and the tokens are the postorder of its
syntax tree. -/
theorem exists_derivation_of_readLexemes {line : Line} {lexemes : List Lexeme} {c : Cursor}
    (h : readLexemes line ⟨lexemes, #[]⟩ = .ok c) :
    ∃ d : Derivation .expression, d.lexemes = lexemes.map (·.kind) ∧
      c.output.toList = d.tree.tokens line.number := by
  obtain ⟨hread, hnil⟩ := readLexemes_eq_ok_iff.mp h
  obtain ⟨d, hks, hout⟩ := Nonterminal.sound .expression line _ c hread
  refine ⟨d, ?_, hout⟩
  rw [Cursor.kinds, Cursor.kinds, hnil, List.map_nil, List.append_nil] at hks
  exact hks.symm

/-- A sentence is read. -/
theorem Derivation.exists_readLexemes_eq_ok (d : Derivation .expression) (line : Line)
    {lexemes : List Lexeme} (h : d.lexemes = lexemes.map (·.kind)) :
    ∃ c, readLexemes line ⟨lexemes, #[]⟩ = .ok c := by
  have hks : (Cursor.mk lexemes #[]).kinds = d.lexemes ++ [] := by
    rw [List.append_nil, h, Cursor.kinds]
  obtain ⟨c, hc, hnil⟩ := d.exists_read_eq_ok line _ [] hks (Nonterminal.stopsBefore_nil _)
  exact ⟨c, readLexemes_eq_ok_iff.mpr ⟨hc, List.map_eq_nil_iff.mp hnil⟩⟩

/-- A sentence is read as the tokens of its tree: the reader follows the only derivation. -/
theorem Derivation.exists_readLexemes_output (d : Derivation .expression) (line : Line)
    {lexemes : List Lexeme} (h : d.lexemes = lexemes.map (·.kind)) :
    ∃ c, readLexemes line ⟨lexemes, #[]⟩ = .ok c ∧
      c.output.toList = d.tree.tokens line.number := by
  obtain ⟨c, hc⟩ := d.exists_readLexemes_eq_ok line h
  obtain ⟨d', hd', hout⟩ := exists_derivation_of_readLexemes hc
  obtain rfl : d' = d := Derivation.lexemes_injective (hd'.trans h.symm)
  exact ⟨c, hc, hout⟩

/-- **Recursive descent decides the grammar.**  A line is read if and only if it is a
sentence.  If it is read, it has one derivation, and the tokens are the postorder of
the syntax tree of that derivation. -/
theorem accepts_iff_derivable (line : Line) (lexemes : List Lexeme) :
    ((∃ c, readLexemes line ⟨lexemes, #[]⟩ = .ok c) ↔
      ∃ d : Derivation .expression, d.lexemes = lexemes.map (·.kind)) ∧
    ∀ c, readLexemes line ⟨lexemes, #[]⟩ = .ok c →
      ∃ d : Derivation .expression, d.lexemes = lexemes.map (·.kind) ∧
        (∀ d' : Derivation .expression, d'.lexemes = lexemes.map (·.kind) → d' = d) ∧
        c.output.toList = d.tree.tokens line.number := by
  refine ⟨⟨?_, ?_⟩, ?_⟩
  · rintro ⟨c, hc⟩
    obtain ⟨d, hd, -⟩ := exists_derivation_of_readLexemes hc
    exact ⟨d, hd⟩
  · rintro ⟨d, hd⟩
    exact d.exists_readLexemes_eq_ok line hd
  · intro c hc
    obtain ⟨d, hd, hout⟩ := exists_derivation_of_readLexemes hc
    refine ⟨d, hd, ?_, hout⟩
    intro d' hd'
    exact Derivation.lexemes_injective (hd'.trans hd.symm)

end Formula

end Argand
