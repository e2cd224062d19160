import Argand.Formula.Production

/-!
# The grammar of expressions

The sentences that recursive descent reads, said without it:

    expression := term (('+' | '-') term)*
    term       := signed (('*' | '/') signed)*
    signed     := ('+' | '-') signed | power
    power      := atom [('^' | '**') signed]
    atom       := number | '(' expression ')' | function atom | name

A derivation is a tree of these rules.  It spells a row of lexemes, and it stands
for a syntax tree, in which signs between terms and between factors group to the
left, powers to the right, and parentheses have done their work.

## Main definitions

* `AdditiveSign`, `MultiplicativeSign`, `PowerSign` — the signs of the rules.
* `Nonterminal`, `Derivation n` — the left sides of the rules, the derivations from
  one of them.
* `Derivation.lexemes d` — the sentence that `d` derives.
* `Tree`, `Derivation.tree d` — syntax trees, the one `d` stands for.
* `Tree.literal? t` — the number that `t` is, if it is nothing but a number with
  signs in front.
* `Tree.postorder t` — operands before operations, and literals negated at once.
* `Nonterminal.StopsBefore n ks` — no phrase of `n` could go on into `ks`.

## Main results

* `Derivation.lexemes_append_inj` — **the grammar is unambiguous**, also where a
  phrase stands in front of something it cannot go on into.
* `Tree.postorder_of_literal?`, `Tree.exists_postorder_eq_concat` — only a literal
  ends in a number.
-/

namespace Argand.Formula

/-! ### Signs -/

/-- A sign between terms, or in front of a power. -/
inductive AdditiveSign
  | plus
  | minus
  deriving DecidableEq, Repr

/-- A sign between factors. -/
inductive MultiplicativeSign
  | star
  | slash
  deriving DecidableEq, Repr

/-- A sign between a base and its exponent. -/
inductive PowerSign
  | caret
  | doubleStar
  deriving DecidableEq, Repr

/-- How a sign between terms is written. -/
def AdditiveSign.kind : AdditiveSign → Lexeme.Kind
  | .plus => .mark .plus
  | .minus => .mark .minus

/-- The operation of a sign between terms. -/
def AdditiveSign.operation : AdditiveSign → BinaryOperation
  | .plus => .add
  | .minus => .sub

/-- How a sign between factors is written. -/
def MultiplicativeSign.kind : MultiplicativeSign → Lexeme.Kind
  | .star => .mark .star
  | .slash => .mark .slash

/-- The operation of a sign between factors. -/
def MultiplicativeSign.operation : MultiplicativeSign → BinaryOperation
  | .star => .mul
  | .slash => .div

/-- How a sign of the power is written. -/
def PowerSign.kind : PowerSign → Lexeme.Kind
  | .caret => .mark .caret
  | .doubleStar => .mark .doubleStar

theorem AdditiveSign.kind_inj {s t : AdditiveSign} (h : s.kind = t.kind) : s = t := by
  cases s <;> cases t <;> simp_all [AdditiveSign.kind]

theorem MultiplicativeSign.kind_inj {s t : MultiplicativeSign} (h : s.kind = t.kind) : s = t := by
  cases s <;> cases t <;> simp_all [MultiplicativeSign.kind]

theorem PowerSign.kind_inj {s t : PowerSign} (h : s.kind = t.kind) : s = t := by
  cases s <;> cases t <;> simp_all [PowerSign.kind]

@[simp] theorem additive?_kind (s : AdditiveSign) : additive? s.kind = some s.operation := by
  cases s <;> rfl

@[simp] theorem multiplicative?_kind (s : MultiplicativeSign) :
    multiplicative? s.kind = some s.operation := by
  cases s <;> rfl

@[simp] theorem isPower_kind (s : PowerSign) : isPower s.kind = true := by
  cases s <;> rfl

/-- Only the two signs between terms have an operation there. -/
theorem exists_sign_of_additive? {k : Lexeme.Kind} {op : BinaryOperation}
    (h : additive? k = some op) : ∃ s : AdditiveSign, k = s.kind ∧ op = s.operation := by
  unfold additive? at h
  split at h
  · exact ⟨.plus, rfl, (Option.some.inj h).symm⟩
  · exact ⟨.minus, rfl, (Option.some.inj h).symm⟩
  · exact absurd h (by simp)

/-- Only the two signs between factors have an operation there. -/
theorem exists_sign_of_multiplicative? {k : Lexeme.Kind} {op : BinaryOperation}
    (h : multiplicative? k = some op) :
    ∃ s : MultiplicativeSign, k = s.kind ∧ op = s.operation := by
  unfold multiplicative? at h
  split at h
  · exact ⟨.star, rfl, (Option.some.inj h).symm⟩
  · exact ⟨.slash, rfl, (Option.some.inj h).symm⟩
  · exact absurd h (by simp)

/-- The power has two signs. -/
theorem exists_sign_of_isPower {k : Lexeme.Kind} (h : isPower k = true) :
    ∃ s : PowerSign, k = s.kind := by
  unfold isPower at h
  split at h
  · exact ⟨.caret, rfl⟩
  · exact ⟨.doubleStar, rfl⟩
  · exact absurd h (by simp)

/-! ### Syntax trees -/

/-- The syntax of an expression, without its parentheses. -/
inductive Tree
  /-- A number, or the imaginary unit. -/
  | number (value : ComplexNumber Float)
  /-- The point at which the expression is evaluated. -/
  | input
  /-- A name that has to be looked up. -/
  | name (text : String)
  /-- A plus sign in front of an operand. -/
  | plus (operand : Tree)
  /-- A minus sign in front of an operand. -/
  | minus (operand : Tree)
  /-- A function with its operand. -/
  | function (f : UnaryOperation) (operand : Tree)
  /-- An operator between two operands. -/
  | operator (op : BinaryOperation) (left right : Tree)
  deriving DecidableEq, Repr

namespace Tree

/-- The leaf that a name stands for, if it is not the name of a function. -/
def ofName (text : String) : Tree :=
  if text = inputName then .input
  else if unitNames.contains text then .number .i
  else .name text

/-- An operand with a sign in front. -/
def withSign : AdditiveSign → Tree → Tree
  | .plus => .plus
  | .minus => .minus

/-- The number that an operand is, if it is a number with any signs in front. -/
def literal? : Tree → Option (ComplexNumber Float)
  | .number z => some z
  | .plus t => t.literal?
  | .minus t => t.literal?.map .neg
  | _ => none

/-- The operands of each operation before it.  A plus sign leaves no trace; a minus
sign changes a literal, and is an operation in front of anything else. -/
def postorder : Tree → List Token.Kind
  | .number z => [.number z]
  | .input => [.input]
  | .name text => [.identifier text]
  | .plus t => t.postorder
  | .minus t =>
    match t.literal? with
    | some z => [.number z.neg]
    | none => t.postorder ++ [.operation (.unary .neg)]
  | .function f t => t.postorder ++ [.operation (.unary f)]
  | .operator op l r => l.postorder ++ r.postorder ++ [.operation (.binary op)]

/-- The tokens of a tree that stands on a line. -/
def tokens (line : Int) (t : Tree) : List Token := t.postorder.map (⟨·, line⟩)

/-- A leaf for a name is written as the token of that name. -/
theorem postorder_ofName (text : String) : (ofName text).postorder = [nameKind text] := by
  unfold ofName nameKind
  split
  · rfl
  · split <;> rfl

/-- A literal is written as its number alone. -/
theorem postorder_of_literal? : ∀ {t : Tree} {z : ComplexNumber Float},
    t.literal? = some z → t.postorder = [.number z] := by
  intro t
  induction t with
  | number w =>
    intro z h
    rw [postorder, Option.some.inj h]
  | plus t ih =>
    intro z h
    exact ih h
  | minus t ih =>
    intro z h
    obtain ⟨w, hw, rfl⟩ := Option.map_eq_some_iff.mp h
    rw [postorder, hw]
  | input => intro z h; exact absurd h (by simp [literal?])
  | name text => intro z h; exact absurd h (by simp [literal?])
  | function f t => intro z h; exact absurd h (by simp [literal?])
  | operator op l r => intro z h; exact absurd h (by simp [literal?])

/-- What is not a literal ends in a token that is not a number. -/
theorem exists_postorder_eq_concat : ∀ {t : Tree}, t.literal? = none →
    ∃ ks k, t.postorder = ks ++ [k] ∧ ∀ z, k ≠ .number z := by
  intro t
  induction t with
  | number w => intro h; exact absurd h (by simp [literal?])
  | input => intro _; exact ⟨[], .input, rfl, fun _ => Token.Kind.noConfusion⟩
  | name text => intro _; exact ⟨[], .identifier text, rfl, fun _ => Token.Kind.noConfusion⟩
  | plus t ih => intro h; exact ih h
  | minus t ih =>
    intro h
    refine ⟨t.postorder, .operation (.unary .neg), ?_, fun _ => Token.Kind.noConfusion⟩
    rw [postorder, Option.map_eq_none_iff.mp h]
  | function f t =>
    intro _
    exact ⟨t.postorder, .operation (.unary f), rfl, fun _ => Token.Kind.noConfusion⟩
  | operator op l r =>
    intro _
    exact ⟨l.postorder ++ r.postorder, .operation (.binary op), rfl,
      fun _ => Token.Kind.noConfusion⟩

end Tree

/-! ### Derivations -/

/-- The left sides of the rules.  The repeated parts of sums and products have left
sides of their own. -/
inductive Nonterminal
  | expression
  | moreTerms
  | term
  | moreFactors
  | signed
  | power
  | atom
  deriving DecidableEq, Repr

/-- A derivation from a left side. -/
inductive Derivation : Nonterminal → Type
  | expression (first : Derivation .term) (more : Derivation .moreTerms) : Derivation .expression
  | noMoreTerms : Derivation .moreTerms
  | nextTerm (s : AdditiveSign) (next : Derivation .term) (more : Derivation .moreTerms) :
      Derivation .moreTerms
  | term (first : Derivation .signed) (more : Derivation .moreFactors) : Derivation .term
  | noMoreFactors : Derivation .moreFactors
  | nextFactor (s : MultiplicativeSign) (next : Derivation .signed)
      (more : Derivation .moreFactors) : Derivation .moreFactors
  | sign (s : AdditiveSign) (operand : Derivation .signed) : Derivation .signed
  | unsigned (power : Derivation .power) : Derivation .signed
  | plain (base : Derivation .atom) : Derivation .power
  | raised (base : Derivation .atom) (s : PowerSign) (exponent : Derivation .signed) :
      Derivation .power
  | number (value : ComplexNumber Float) : Derivation .atom
  | parentheses (inner : Derivation .expression) : Derivation .atom
  | call (f : UnaryOperation) (operand : Derivation .atom) : Derivation .atom
  | name (text : String) (notFunction : ∀ f : UnaryOperation, f.symbol ≠ text) :
      Derivation .atom

/-- What a phrase stands for: a tree, or a way to go on from the tree on its
left. -/
@[reducible] def Nonterminal.Meaning : Nonterminal → Type
  | .moreTerms => Tree → Tree
  | .moreFactors => Tree → Tree
  | _ => Tree

namespace Derivation

/-- The sentence of a derivation. -/
def lexemes : {n : Nonterminal} → Derivation n → List Lexeme.Kind
  | _, .expression first more => first.lexemes ++ more.lexemes
  | _, .noMoreTerms => []
  | _, .nextTerm s next more => s.kind :: (next.lexemes ++ more.lexemes)
  | _, .term first more => first.lexemes ++ more.lexemes
  | _, .noMoreFactors => []
  | _, .nextFactor s next more => s.kind :: (next.lexemes ++ more.lexemes)
  | _, .sign s operand => s.kind :: operand.lexemes
  | _, .unsigned power => power.lexemes
  | _, .plain base => base.lexemes
  | _, .raised base s exponent => base.lexemes ++ s.kind :: exponent.lexemes
  | _, .number value => [.number value]
  | _, .parentheses inner => .mark .leftParen :: (inner.lexemes ++ [.mark .rightParen])
  | _, .call f operand => .name f.symbol :: operand.lexemes
  | _, .name text _ => [.name text]

/-- What a derivation stands for. -/
def tree : {n : Nonterminal} → Derivation n → n.Meaning
  | _, .expression first more => more.tree first.tree
  | _, .noMoreTerms => id
  | _, .nextTerm s next more => fun left => more.tree (.operator s.operation left next.tree)
  | _, .term first more => more.tree first.tree
  | _, .noMoreFactors => id
  | _, .nextFactor s next more => fun left => more.tree (.operator s.operation left next.tree)
  | _, .sign s operand => operand.tree.withSign s
  | _, .unsigned power => power.tree
  | _, .plain base => base.tree
  | _, .raised base _ exponent => .operator .pow base.tree exponent.tree
  | _, .number value => .number value
  | _, .parentheses inner => inner.tree
  | _, .call f operand => .function f operand.tree
  | _, .name text _ => .ofName text

end Derivation

/-! ### Unambiguity -/

/-- How loosely a lexeme ties what follows it to the phrase in front of it: an
opening parenthesis the tightest, a sign between terms the loosest.  What never
goes on with a phrase is looser than all of these. -/
def looseness : Lexeme.Kind → Nat
  | .mark .leftParen => 0
  | .mark .caret => 1
  | .mark .doubleStar => 1
  | .mark .star => 2
  | .mark .slash => 2
  | .mark .plus => 3
  | .mark .minus => 3
  | _ => 4

/-- How loose a lexeme can be that a phrase still goes on with.  An atom would go on
with a parenthesis if its name were taken for a function. -/
def Nonterminal.looseness : Nonterminal → Nat
  | .atom => 0
  | .power => 1
  | .signed => 1
  | .term => 2
  | .moreFactors => 2
  | .expression => 3
  | .moreTerms => 3

/-- No phrase of `n` goes on into `ks`. -/
def Nonterminal.StopsBefore (n : Nonterminal) (ks : List Lexeme.Kind) : Prop :=
  ∀ k ∈ ks.head?, n.looseness < Formula.looseness k

@[simp] theorem looseness_additiveSign (s : AdditiveSign) : looseness s.kind = 3 := by
  cases s <;> rfl

@[simp] theorem looseness_multiplicativeSign (s : MultiplicativeSign) :
    looseness s.kind = 2 := by
  cases s <;> rfl

@[simp] theorem looseness_powerSign (s : PowerSign) : looseness s.kind = 1 := by
  cases s <;> rfl

@[simp] theorem looseness_rightParen : looseness (.mark .rightParen) = 4 := rfl

namespace Nonterminal

theorem stopsBefore_nil (n : Nonterminal) : n.StopsBefore [] := by
  intro k hk
  exact absurd hk (by simp)

@[simp] theorem stopsBefore_cons {n : Nonterminal} {k : Lexeme.Kind} {ks : List Lexeme.Kind} :
    n.StopsBefore (k :: ks) ↔ n.looseness < Formula.looseness k := by
  simp [StopsBefore]

/-- What a loose phrase stops before, a tight one stops before too. -/
theorem StopsBefore.tighter {n m : Nonterminal} {ks : List Lexeme.Kind}
    (h : n.StopsBefore ks) (hmn : m.looseness ≤ n.looseness) : m.StopsBefore ks := by
  intro k hk
  exact Nat.lt_of_le_of_lt hmn (h k hk)

/-- A term ends where further terms start, or where a sum without them ends. -/
theorem StopsBefore.term {more : Derivation .moreTerms} {ks : List Lexeme.Kind}
    (h : moreTerms.StopsBefore ks) : Nonterminal.term.StopsBefore (more.lexemes ++ ks) := by
  cases more with
  | noMoreTerms => exact h.tighter (by decide)
  | nextTerm s next more => simp [Derivation.lexemes, looseness]

/-- A factor ends where further factors start, or where a product without them
ends. -/
theorem StopsBefore.signed {more : Derivation .moreFactors} {ks : List Lexeme.Kind}
    (h : moreFactors.StopsBefore ks) :
    Nonterminal.signed.StopsBefore (more.lexemes ++ ks) := by
  cases more with
  | noMoreFactors => exact h.tighter (by decide)
  | nextFactor s next more => simp [Derivation.lexemes, looseness]

end Nonterminal

namespace Derivation

/-- An atom starts with no sign. -/
theorem exists_lexemes_eq_cons_of_atom (d : Derivation .atom) :
    ∃ k ks, d.lexemes = k :: ks ∧ additive? k = none := by
  cases d with
  | number z => exact ⟨_, _, rfl, rfl⟩
  | parentheses inner => exact ⟨_, _, rfl, rfl⟩
  | call f operand => exact ⟨_, _, rfl, rfl⟩
  | name text h => exact ⟨_, _, rfl, rfl⟩

/-- A power starts with no sign. -/
theorem exists_lexemes_eq_cons_of_power (d : Derivation .power) :
    ∃ k ks, d.lexemes = k :: ks ∧ additive? k = none := by
  cases d with
  | plain base => exact base.exists_lexemes_eq_cons_of_atom
  | raised base s exponent =>
    obtain ⟨k, ks, hks, hk⟩ := base.exists_lexemes_eq_cons_of_atom
    exact ⟨k, ks ++ s.kind :: exponent.lexemes, by rw [lexemes, hks, List.cons_append], hk⟩

/-- A sign in front of an operand is not taken for the start of a power. -/
theorem sign_cons_ne_power (s : AdditiveSign) (d : Derivation .power) (ks ks' : List Lexeme.Kind) :
    s.kind :: ks ≠ d.lexemes ++ ks' := by
  intro h
  obtain ⟨k, rest, hd, hk⟩ := d.exists_lexemes_eq_cons_of_power
  rw [hd, List.cons_append] at h
  rw [← (List.cons.inj h).1, additive?_kind] at hk
  exact absurd hk (by simp)

/-- **The grammar is unambiguous.**  Two phrases in front of lexemes that neither
can go on into have the same derivation if they make up the same row. -/
theorem lexemes_append_inj : ∀ {n : Nonterminal} (d d' : Derivation n) (ks ks' : List Lexeme.Kind),
    d.lexemes ++ ks = d'.lexemes ++ ks' → n.StopsBefore ks → n.StopsBefore ks' →
      d = d' ∧ ks = ks' := by
  intro n d
  induction d with
  | expression first more ihFirst ihMore =>
    intro d' ks ks' h hks hks'
    cases d' with
    | expression first' more' =>
      simp only [lexemes, List.append_assoc] at h
      obtain ⟨rfl, hmore⟩ := ihFirst first' _ _ h
        (Nonterminal.StopsBefore.term hks) (Nonterminal.StopsBefore.term hks')
      obtain ⟨rfl, rfl⟩ := ihMore more' _ _ hmore hks hks'
      exact ⟨rfl, rfl⟩
  | noMoreTerms =>
    intro d' ks ks' h hks hks'
    cases d' with
    | noMoreTerms => exact ⟨rfl, h⟩
    | nextTerm s next more =>
      -- a sign would have gone on with the phrase on the left
      simp only [lexemes, List.nil_append, List.cons_append] at h
      rw [h, Nonterminal.stopsBefore_cons, looseness_additiveSign] at hks
      exact absurd hks (by decide)
  | nextTerm s next more ihNext ihMore =>
    intro d' ks ks' h hks hks'
    cases d' with
    | noMoreTerms =>
      simp only [lexemes, List.nil_append, List.cons_append] at h
      rw [← h, Nonterminal.stopsBefore_cons, looseness_additiveSign] at hks'
      exact absurd hks' (by decide)
    | nextTerm s' next' more' =>
      simp only [lexemes, List.cons_append, List.append_assoc] at h
      obtain ⟨hs, hnext⟩ := List.cons.inj h
      obtain ⟨rfl, hmore⟩ := ihNext next' _ _ hnext
        (Nonterminal.StopsBefore.term hks) (Nonterminal.StopsBefore.term hks')
      obtain ⟨rfl, rfl⟩ := ihMore more' _ _ hmore hks hks'
      rw [AdditiveSign.kind_inj hs]
      exact ⟨rfl, rfl⟩
  | term first more ihFirst ihMore =>
    intro d' ks ks' h hks hks'
    cases d' with
    | term first' more' =>
      simp only [lexemes, List.append_assoc] at h
      obtain ⟨rfl, hmore⟩ := ihFirst first' _ _ h
        (Nonterminal.StopsBefore.signed hks) (Nonterminal.StopsBefore.signed hks')
      obtain ⟨rfl, rfl⟩ := ihMore more' _ _ hmore hks hks'
      exact ⟨rfl, rfl⟩
  | noMoreFactors =>
    intro d' ks ks' h hks hks'
    cases d' with
    | noMoreFactors => exact ⟨rfl, h⟩
    | nextFactor s next more =>
      simp only [lexemes, List.nil_append, List.cons_append] at h
      rw [h, Nonterminal.stopsBefore_cons, looseness_multiplicativeSign] at hks
      exact absurd hks (by decide)
  | nextFactor s next more ihNext ihMore =>
    intro d' ks ks' h hks hks'
    cases d' with
    | noMoreFactors =>
      simp only [lexemes, List.nil_append, List.cons_append] at h
      rw [← h, Nonterminal.stopsBefore_cons, looseness_multiplicativeSign] at hks'
      exact absurd hks' (by decide)
    | nextFactor s' next' more' =>
      simp only [lexemes, List.cons_append, List.append_assoc] at h
      obtain ⟨hs, hnext⟩ := List.cons.inj h
      obtain ⟨rfl, hmore⟩ := ihNext next' _ _ hnext
        (Nonterminal.StopsBefore.signed hks) (Nonterminal.StopsBefore.signed hks')
      obtain ⟨rfl, rfl⟩ := ihMore more' _ _ hmore hks hks'
      rw [MultiplicativeSign.kind_inj hs]
      exact ⟨rfl, rfl⟩
  | sign s operand ih =>
    intro d' ks ks' h hks hks'
    cases d' with
    | sign s' operand' =>
      simp only [lexemes, List.cons_append] at h
      obtain ⟨hs, hoperand⟩ := List.cons.inj h
      obtain ⟨rfl, rfl⟩ := ih operand' _ _ hoperand hks hks'
      rw [AdditiveSign.kind_inj hs]
      exact ⟨rfl, rfl⟩
    | unsigned power => exact absurd h (sign_cons_ne_power s power _ _)
  | unsigned power ih =>
    intro d' ks ks' h hks hks'
    cases d' with
    | sign s operand => exact absurd h.symm (sign_cons_ne_power s power _ _)
    | unsigned power' =>
      obtain ⟨rfl, rfl⟩ := ih power' _ _ h hks hks'
      exact ⟨rfl, rfl⟩
  | plain base ih =>
    intro d' ks ks' h hks hks'
    cases d' with
    | plain base' =>
      obtain ⟨rfl, rfl⟩ := ih base' _ _ h (hks.tighter (by decide)) (hks'.tighter (by decide))
      exact ⟨rfl, rfl⟩
    | raised base' s exponent =>
      simp only [lexemes, List.append_assoc, List.cons_append] at h
      obtain ⟨-, rfl⟩ := ih base' _ _ h (hks.tighter (by decide)) (by simp [Nonterminal.looseness])
      exact absurd (Nonterminal.stopsBefore_cons.mp hks) (by simp [Nonterminal.looseness])
  | raised base s exponent ihBase ihExponent =>
    intro d' ks ks' h hks hks'
    cases d' with
    | plain base' =>
      simp only [lexemes, List.append_assoc, List.cons_append] at h
      obtain ⟨-, rfl⟩ := ihBase base' _ _ h (by simp [Nonterminal.looseness])
        (hks'.tighter (by decide))
      exact absurd (Nonterminal.stopsBefore_cons.mp hks') (by simp [Nonterminal.looseness])
    | raised base' s' exponent' =>
      simp only [lexemes, List.append_assoc, List.cons_append] at h
      obtain ⟨rfl, hrest⟩ := ihBase base' _ _ h (by simp [Nonterminal.looseness])
        (by simp [Nonterminal.looseness])
      obtain ⟨hs, hexponent⟩ := List.cons.inj hrest
      obtain ⟨rfl, rfl⟩ := ihExponent exponent' _ _ hexponent hks hks'
      rw [PowerSign.kind_inj hs]
      exact ⟨rfl, rfl⟩
  | number z =>
    intro d' ks ks' h hks hks'
    cases d' <;> simp_all [lexemes]
  | parentheses inner ih =>
    intro d' ks ks' h hks hks'
    cases d' with
    | parentheses inner' =>
      simp only [lexemes, List.cons_append, List.append_assoc, List.nil_append] at h
      obtain ⟨rfl, hrest⟩ := ih inner' _ _ (List.cons.inj h).2
        (by simp [Nonterminal.looseness]) (by simp [Nonterminal.looseness])
      exact ⟨rfl, (List.cons.inj hrest).2⟩
    | number z => exact absurd h (by simp [lexemes])
    | call f operand => exact absurd h (by simp [lexemes])
    | name text hf => exact absurd h (by simp [lexemes])
  | call f operand ih =>
    intro d' ks ks' h hks hks'
    cases d' with
    | call f' operand' =>
      simp only [lexemes, List.cons_append] at h
      obtain ⟨hf, hoperand⟩ := List.cons.inj h
      obtain ⟨rfl, rfl⟩ := ih operand' _ _ hoperand hks hks'
      rw [UnaryOperation.symbol_injective (Lexeme.Kind.name.inj hf)]
      exact ⟨rfl, rfl⟩
    | name text hf =>
      simp only [lexemes, List.cons_append] at h
      exact absurd (Lexeme.Kind.name.inj (List.cons.inj h).1) (hf f)
    | number z => exact absurd h (by simp [lexemes])
    | parentheses inner => exact absurd h (by simp [lexemes])
  | name text hf =>
    intro d' ks ks' h hks hks'
    cases d' with
    | call f operand =>
      simp only [lexemes, List.cons_append] at h
      exact absurd (Lexeme.Kind.name.inj (List.cons.inj h).1).symm (hf f)
    | name text' hf' =>
      simp only [lexemes, List.cons_append, List.nil_append] at h
      obtain ⟨htext, rfl⟩ := List.cons.inj h
      obtain rfl := Lexeme.Kind.name.inj htext
      exact ⟨rfl, rfl⟩
    | number z => exact absurd h (by simp [lexemes])
    | parentheses inner => exact absurd h (by simp [lexemes])

/-- A sentence has one derivation. -/
theorem lexemes_injective {n : Nonterminal} {d d' : Derivation n} (h : d.lexemes = d'.lexemes) :
    d = d' := by
  have h' : d.lexemes ++ [] = d'.lexemes ++ [] := by rw [h]
  exact (lexemes_append_inj d d' [] [] h' n.stopsBefore_nil n.stopsBefore_nil).1

end Derivation

end Argand.Formula
