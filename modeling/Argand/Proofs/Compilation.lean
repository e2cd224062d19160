import Argand.Evaluation.Machine
import Argand.Proofs.RecursiveDescent

/-!
# Compiling expressions

The tokens of a line are code for a stack machine.  Here they are compared with the
value of the syntax tree, which is found by recursion and without a stack.

## Main definitions

* `Tree.value? known x t` — the value of a tree at a point, if its names have one.
* `Tree.names t` — the names that have to be looked up, from left to right.
* `Tree.unknown? known t` — the first of them that stands for nothing.

## Main results

* `Tree.exists_value?_iff` — a tree has a value if and only if its names do.
* `Tree.run_tokens_of_value?`, `Tree.run_tokens_of_unknown?` — a tree leaves its
  value on whatever is on the stack, or the machine stops at the first name that
  stands for nothing.
* `run_readLexemes` — **reading and running a line preserve its meaning.**
-/

namespace Argand.Formula

variable {known resolve : Resolver} {x : ComplexNumber Float} {m : Machine} {line : Int}

namespace Tree

/-! ### The value of a tree -/

/-- The value of a tree at `x`, if its names stand for something. -/
def value? (known : Resolver) (x : ComplexNumber Float) : Tree → Option (ComplexNumber Float)
  | .number z => some z
  | .input => some x
  | .name text => known text
  | .plus t => t.value? known x
  | .minus t => (t.value? known x).map .neg
  | .function f t => (t.value? known x).bind fun z => ((Operation.unary f).apply [z]).toOption
  | .operator op l r =>
    (l.value? known x).bind fun z => (r.value? known x).bind fun w =>
      ((Operation.binary op).apply [z, w]).toOption

/-- The names that have to be looked up, from left to right. -/
def names : Tree → List String
  | .number _ => []
  | .input => []
  | .name text => [text]
  | .plus t => t.names
  | .minus t => t.names
  | .function _ t => t.names
  | .operator _ l r => l.names ++ r.names

/-- The first name that stands for nothing. -/
def unknown? (known : Resolver) (t : Tree) : Option String :=
  t.names.find? fun name => (known name).isNone

theorem value?_function_eq_some {f : UnaryOperation} {t : Tree} {z : ComplexNumber Float} :
    (Tree.function f t).value? known x = some z ↔
      ∃ w, t.value? known x = some w ∧ f.eval w = z := by
  simp [value?, Option.bind_eq_some_iff, Except.toOption]

theorem value?_operator_eq_some {op : BinaryOperation} {l r : Tree} {z : ComplexNumber Float} :
    (Tree.operator op l r).value? known x = some z ↔
      ∃ v, l.value? known x = some v ∧ ∃ w, r.value? known x = some w ∧ op.eval v w = z := by
  simp [value?, Option.bind_eq_some_iff, Except.toOption]

/-- The value of a literal is its number. -/
theorem value?_of_literal? : ∀ {t : Tree} {z : ComplexNumber Float},
    t.literal? = some z → t.value? known x = some z := by
  intro t
  induction t with
  | number w => intro z h; exact h
  | plus t ih => intro z h; exact ih h
  | minus t ih =>
    intro z h
    obtain ⟨w, hw, rfl⟩ := Option.map_eq_some_iff.mp h
    rw [value?, ih hw, Option.map_some]
  | input => intro z h; exact absurd h (by simp [literal?])
  | name text => intro z h; exact absurd h (by simp [literal?])
  | function f t => intro z h; exact absurd h (by simp [literal?])
  | operator op l r => intro z h; exact absurd h (by simp [literal?])

/-- The first unknown name of an operator is on its left, or on its right if
everything on the left is known. -/
theorem unknown?_operator (known : Resolver) (op : BinaryOperation) (l r : Tree) :
    (Tree.operator op l r).unknown? known = (l.unknown? known).or (r.unknown? known) := by
  rw [unknown?, names, List.find?_append, unknown?, unknown?]

/-- **A tree has a value if and only if its names do.** -/
theorem exists_value?_iff (known : Resolver) (x : ComplexNumber Float) (t : Tree) :
    (∃ z, t.value? known x = some z) ↔ t.unknown? known = none := by
  induction t with
  | number z => simp [value?, unknown?, names]
  | input => simp [value?, unknown?, names]
  | name text => cases h : known text <;> simp [value?, unknown?, names, h]
  | plus t ih => exact ih
  | minus t ih =>
    refine Iff.trans ?_ ih
    constructor
    · rintro ⟨z, hz⟩
      obtain ⟨w, hw, -⟩ := Option.map_eq_some_iff.mp hz
      exact ⟨w, hw⟩
    · rintro ⟨w, hw⟩
      exact ⟨w.neg, Option.map_eq_some_iff.mpr ⟨w, hw, rfl⟩⟩
  | function f t ih =>
    refine Iff.trans ?_ ih
    constructor
    · rintro ⟨z, hz⟩
      obtain ⟨w, hw, -⟩ := value?_function_eq_some.mp hz
      exact ⟨w, hw⟩
    · rintro ⟨w, hw⟩
      exact ⟨f.eval w, value?_function_eq_some.mpr ⟨w, hw, rfl⟩⟩
  | operator op l r ihl ihr =>
    rw [unknown?_operator, Option.or_eq_none_iff, ← ihl, ← ihr]
    constructor
    · rintro ⟨z, hz⟩
      obtain ⟨v, hv, w, hw, -⟩ := value?_operator_eq_some.mp hz
      exact ⟨⟨v, hv⟩, w, hw⟩
    · rintro ⟨⟨v, hv⟩, w, hw⟩
      exact ⟨op.eval v w, value?_operator_eq_some.mpr ⟨v, hv, w, hw, rfl⟩⟩

/-! ### The tokens of a tree on the machine -/

/-- A tree with a value leaves it on the stack. -/
theorem run_tokens_of_value? : ∀ {t : Tree} {m : Machine} {z : ComplexNumber Float},
    t.value? (m.lookUp resolve) x = some z →
      m.run resolve x (t.tokens line) = .ok (m.push z) := by
  intro t
  induction t with
  | number w =>
    intro m z h
    obtain rfl := Option.some.inj h
    rfl
  | input =>
    intro m z h
    obtain rfl := Option.some.inj h
    rfl
  | name text =>
    intro m z h
    rw [value?] at h
    simp [tokens, postorder, Machine.run, Machine.step, h]
  | plus t ih => intro m z h; exact ih h
  | minus t ih =>
    intro m z h
    obtain ⟨w, hw, rfl⟩ := Option.map_eq_some_iff.mp h
    cases hlit : t.literal? with
    | some v =>
      -- the literal was negated when it was read
      obtain rfl : v = w := Option.some.inj ((value?_of_literal? hlit).symm.trans hw)
      rw [tokens_minus_of_literal? line hlit]
      rfl
    | none =>
      rw [tokens_minus line hlit, Machine.run_append_of_ok (ih hw)]
      rfl
  | function f t ih =>
    intro m z h
    obtain ⟨w, hw, rfl⟩ := value?_function_eq_some.mp h
    rw [tokens_function, Machine.run_append_of_ok (ih hw)]
    rfl
  | operator op l r ihl ihr =>
    intro m z h
    obtain ⟨v, hv, w, hw, rfl⟩ := value?_operator_eq_some.mp h
    have hl : m.run resolve x (l.tokens line) = .ok (m.push v) := ihl hv
    have hr : (m.push v).run resolve x (r.tokens line) = .ok ((m.push v).push w) := ihr hw
    rw [tokens_operator, List.append_assoc, Machine.run_append_of_ok hl,
      Machine.run_append_of_ok hr]
    rfl

/-- A tree with an unknown name stops the machine at the first. -/
theorem run_tokens_of_unknown? : ∀ {t : Tree} {m : Machine} {name : String},
    t.unknown? (m.lookUp resolve) = some name →
      m.run resolve x (t.tokens line) = .error (.unknownIdentifier name line) := by
  intro t
  induction t with
  | number w => intro m name h; exact absurd h (by simp [unknown?, names])
  | input => intro m name h; exact absurd h (by simp [unknown?, names])
  | name text =>
    intro m name h
    rw [unknown?, names, List.find?_singleton] at h
    split at h
    · obtain rfl := Option.some.inj h
      simp_all [tokens, postorder, Machine.run, Machine.step]
    · exact absurd h (by simp)
  | plus t ih => intro m name h; exact ih h
  | minus t ih =>
    intro m name h
    cases hlit : t.literal? with
    | some v =>
      have hknown := (exists_value?_iff (m.lookUp resolve) x t).mp ⟨v, value?_of_literal? hlit⟩
      exact absurd (h.symm.trans hknown) (by simp)
    | none =>
      rw [tokens_minus line hlit, Machine.run_append_of_error (ih h)]
  | function f t ih =>
    intro m name h
    rw [tokens_function, Machine.run_append_of_error (ih h)]
  | operator op l r ihl ihr =>
    intro m name h
    rw [unknown?_operator] at h
    rw [tokens_operator, List.append_assoc]
    cases hl : l.unknown? (m.lookUp resolve) with
    | some leftName =>
      rw [hl, Option.some_or] at h
      rw [Machine.run_append_of_error (ihl (hl.trans h))]
    | none =>
      rw [hl, Option.none_or] at h
      obtain ⟨v, hv⟩ := (exists_value?_iff _ x l).mpr hl
      have hr : (m.push v).run resolve x (r.tokens line) =
          .error (.unknownIdentifier name line) := ihr h
      rw [Machine.run_append_of_ok (run_tokens_of_value? hv), Machine.run_append_of_error hr]

end Tree

/-! ### Reading and running -/

/-- **Reading and running a line preserve its meaning.**  A sentence is read, and
whatever the machine holds, what was read leaves the value of the syntax tree on the
stack and nothing else changes.  If a name stands for nothing, neither among the
assigned names nor for the resolver, the machine stops at the first such name. -/
theorem run_readLexemes (d : Derivation .expression) (line : Line) (lexemes : List Lexeme)
    (hd : d.lexemes = lexemes.map (·.kind)) (resolve : Resolver) (x : ComplexNumber Float)
    (m : Machine) :
    let known : Resolver := fun name => (m.assigned.lookup name).or (resolve name)
    ∃ c, readLexemes line ⟨lexemes, #[]⟩ = .ok c ∧
      match d.tree.unknown? known with
      | none => ∃ z, d.tree.value? known x = some z ∧
          m.run resolve x c.output.toList = .ok { m with stack := m.stack.push z }
      | some name =>
          m.run resolve x c.output.toList = .error (.unknownIdentifier name line.number) := by
  intro known
  obtain ⟨c, hc⟩ := d.exists_readLexemes_eq_ok line hd
  refine ⟨c, hc, ?_⟩
  obtain ⟨d', hd', hout⟩ := exists_derivation_of_readLexemes hc
  obtain rfl : d' = d := Derivation.lexemes_injective (hd'.trans hd.symm)
  rw [hout]
  cases hunknown : d'.tree.unknown? known with
  | none =>
    obtain ⟨z, hz⟩ := (Tree.exists_value?_iff known x d'.tree).mpr hunknown
    exact ⟨z, hz, Tree.run_tokens_of_value? hz⟩
  | some name => exact Tree.run_tokens_of_unknown? hunknown

/-- On a line `a * -i`, the unit is negated when it is read, and the product lies on
top of what was there before; without `a` the machine stops. -/
theorem run_readLexemes_product :
    let lexemes : List Lexeme := [⟨.name "a", 0, 1⟩, ⟨.mark .star, 2, 1⟩, ⟨.mark .minus, 4, 1⟩,
      ⟨.name "i", 5, 1⟩]
    let d : Derivation .expression :=
      .expression
        (.term (.unsigned (.plain (.name "a" (UnaryOperation.ofSymbol?_eq_none_iff.mp rfl))))
          (.nextFactor .star
            (.sign .minus
              (.unsigned (.plain (.name "i" (UnaryOperation.ofSymbol?_eq_none_iff.mp rfl)))))
            .noMoreFactors))
        .noMoreTerms
    d.lexemes = lexemes.map (·.kind) ∧
    ∃ c, readLexemes ⟨3, 6⟩ ⟨lexemes, #[]⟩ = .ok c ∧
      Machine.run (fun _ => none) ⟨7, 0⟩ ⟨⟨[⟨5, 0⟩]⟩, [("a", ⟨0, 2⟩)]⟩ c.output.toList =
        .ok ⟨⟨[BinaryOperation.mul.eval ⟨0, 2⟩ (ComplexNumber.neg .i), ⟨5, 0⟩]⟩,
          [("a", ⟨0, 2⟩)]⟩ ∧
      Machine.run (fun _ => none) ⟨7, 0⟩ ⟨⟨[⟨5, 0⟩]⟩, []⟩ c.output.toList =
        .error (.unknownIdentifier "a" 3) := by
  intro lexemes d
  have hd : d.lexemes = lexemes.map (·.kind) := by rfl
  refine ⟨hd, ?_⟩
  obtain ⟨c, hc, z, hz, hrun⟩ := run_readLexemes d ⟨3, 6⟩ lexemes hd (fun _ => none) ⟨7, 0⟩
    ⟨⟨[⟨5, 0⟩]⟩, [("a", ⟨0, 2⟩)]⟩
  obtain ⟨c', hc', hrun'⟩ := run_readLexemes d ⟨3, 6⟩ lexemes hd (fun _ => none) ⟨7, 0⟩
    ⟨⟨[⟨5, 0⟩]⟩, []⟩
  obtain rfl : c = c' := Except.ok.inj (hc.symm.trans hc')
  refine ⟨c, hc, ?_, hrun'⟩
  rw [hrun, ← Option.some.inj hz]
  rfl

end Argand.Formula
