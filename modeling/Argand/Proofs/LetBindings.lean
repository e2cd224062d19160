import Argand.Proofs.Compilation
import Argand.Proofs.Footprint
import Argand.Proofs.OperandLines

/-!
# Assigned names as let-bindings

A program that assigns the value of an expression to a name and then reads the name does the
same as one in which the expression stands wherever the name is read.  The expression is run
again at each of these places, on whatever is on the stack there, and it reads the same names as
the first time: also the name itself, which then stands for what it did before the assignment.

## Main definitions

* `ExpressionCode code` — the code that is read off a line with an expression.
* `substitute name code body` — code in place of a name.
* `Machine.assign m name z` — a value is remembered under a name.

## Main results

* `ExpressionCode.exists_tree` — the code of an expression is that of a syntax tree.
* `Machine.run_assign` — **a remembered value is that of the code in place of its name.**
* `Program.evaluate_let` — an assignment is a let-binding.
-/

namespace Argand

open Formula

variable {resolve : Resolver} {x z : ComplexNumber Float} {name : String} {t : Token}
  {code body rest : List Token}

/-! ### The code of an expression -/

/-- The code that is read off a line with an expression: off a sentence of the grammar, or off
a line that holds a literal or the input alone. -/
inductive ExpressionCode : List Token → Prop
  /-- A sentence. -/
  | sentence {raw : List Char} {number : Int} {code : List Token}
      (h : sentenceTokens raw number = .ok code) : ExpressionCode code
  /-- A literal or the input, but not an operation. -/
  | lone {text : List Char} {number : Int} {kind : Token.Kind}
      (h : Reader.loneKind? text = some kind) (hop : ∀ op, kind ≠ .operation op) :
      ExpressionCode [⟨kind, number⟩]

/-- The code of an expression is that of a syntax tree. -/
theorem ExpressionCode.exists_tree (h : ExpressionCode code) :
    ∃ (t : Tree) (line : Int), code = t.tokens line := by
  cases h with
  | @sentence raw number code h =>
    obtain ⟨-, -, d, -, rfl⟩ := sentenceTokens_eq_ok_iff.mp h
    exact ⟨d.tree, number, rfl⟩
  | @lone text number kind h hop =>
    rcases Reader.loneKind?_cases h with ⟨z, rfl⟩ | rfl | ⟨op, rfl, -⟩
    · exact ⟨.number z, number, rfl⟩
    · exact ⟨.input, number, rfl⟩
    · exact absurd rfl (hop op)

/-! ### Code in place of a name -/

/-- Code in place of every token that reads a name. -/
def substitute (name : String) (code body : List Token) : List Token :=
  body.flatMap fun t => if t.kind = .identifier name then code else [t]

theorem substitute_cons_of_eq (h : t.kind = .identifier name) :
    substitute name code (t :: rest) = code ++ substitute name code rest := by
  rw [substitute, List.flatMap_cons, if_pos h, substitute]

theorem substitute_cons_of_ne (h : t.kind ≠ .identifier name) :
    substitute name code (t :: rest) = t :: substitute name code rest := by
  rw [substitute, List.flatMap_cons, if_neg h, List.singleton_append, substitute]

namespace Machine

variable {m m' : Machine}

/-- A value is remembered under a name. -/
def assign (m : Machine) (name : String) (z : ComplexNumber Float) : Machine :=
  { m with assigned := (name, z) :: m.assigned }

theorem stack_assign (m : Machine) (name : String) (z : ComplexNumber Float) :
    (m.assign name z).stack = m.stack := rfl

theorem lookUp_assign_self (m : Machine) (name : String) (z : ComplexNumber Float) :
    (m.assign name z).lookUp resolve name = some z := by
  rw [lookUp, assign, List.lookup_cons_self, Option.some_or]

theorem lookUp_assign_of_ne {other : String} (h : other ≠ name) :
    (m.assign name z).lookUp resolve other = m.lookUp resolve other := by
  rw [lookUp, lookUp, assign, List.lookup_cons, beq_false_of_ne h]

/-- A token that reads a remembered value puts it on the stack. -/
theorem step_assign_of_eq (h : t.kind = .identifier name) :
    (m.assign name z).step resolve x t = .ok ((m.push z).assign name z) := by
  rw [step, h]
  dsimp only
  rw [lookUp_assign_self]
  rfl

/-- A token that neither reads a name nor assigns any does the same where a value is remembered
under the name, and fails in the same way. -/
theorem step_assign_of_ne (hname : t.kind ≠ .identifier name)
    (hassign : ∀ other, t.kind ≠ .assign other) :
    (m.assign name z).step resolve x t = (m.step resolve x t).map (·.assign name z) := by
  obtain ⟨kind, line⟩ := t
  cases kind with
  | identifier other =>
    have hother : other ≠ name := fun hsame => hname (by rw [hsame])
    simp only [step]
    rw [lookUp_assign_of_ne hother]
    cases m.lookUp resolve other <;> rfl
  | operation op =>
    simp only [step, stack_assign]
    cases m.stack.apply op line <;> rfl
  | assign other => exact absurd rfl (hassign other)
  | number w => rfl
  | input => rfl
  | foreign symbol => rfl
  | blank => rfl

/-- **A remembered value is that of the code in place of its name.**  With it, tokens that assign
nothing do the same as with the code in place of the name. -/
theorem run_assign {tree : Tree} {line : Int}
    (hz : tree.value? (m.lookUp resolve) x = some z)
    (hbody : ∀ t ∈ body, ∀ other, t.kind ≠ .assign other) :
    (m.assign name z).run resolve x body =
      (m.run resolve x (substitute name (tree.tokens line) body)).map (·.assign name z) := by
  induction body generalizing m with
  | nil => rfl
  | cons t rest ih =>
    obtain ⟨ht, hrest⟩ := List.forall_mem_cons.mp hbody
    by_cases hkind : t.kind = .identifier name
    · have hcode : m.run resolve x (tree.tokens line) = .ok (m.push z) :=
        Tree.run_tokens_of_value? hz
      rw [substitute_cons_of_eq hkind, run_append_of_ok hcode, run, step_assign_of_eq hkind]
      exact ih hz hrest
    · rw [substitute_cons_of_ne hkind, run, run, step_assign_of_ne hkind ht]
      cases hstep : m.step resolve x t with
      | error e => rfl
      | ok m₁ =>
        -- the code reads the same names as before
        have hknown : m₁.lookUp resolve = m.lookUp resolve :=
          funext fun other => lookUp_step hstep (ht other) resolve
        exact ih (hknown ▸ hz) hrest

end Machine

namespace Program

/-- **An assignment is a let-binding.**  If the code of an expression leaves a value, then the
code, an assignment to a name and tokens that assign nothing come to the same as these tokens
with the code in place of the name: they leave the same values or fail in the same way. -/
theorem evaluate_let (hcode : ExpressionCode code) {source : String}
    (hvalue : ∃ values, Program.evaluate ⟨code, source⟩ resolve x = .ok values)
    (hbody : ∀ t ∈ body, ∀ other, t.kind ≠ .assign other) (name : String) (line : Int)
    (source' source'' : String) :
    Program.evaluate ⟨code ++ ⟨.assign name, line⟩ :: body, source'⟩ resolve x =
      Program.evaluate ⟨substitute name code body, source''⟩ resolve x := by
  obtain ⟨tree, number, rfl⟩ := hcode.exists_tree
  -- all the names of the expression stand for something, so it has a value
  obtain ⟨z, hz⟩ : ∃ z, tree.value? (Machine.start.lookUp resolve) x = some z := by
    refine (Tree.exists_value?_iff _ x tree).mpr (Option.eq_none_iff_forall_ne_some.mpr ?_)
    intro missing hmissing
    obtain ⟨values, hvalue⟩ := hvalue
    rw [evaluate, Tree.run_tokens_of_unknown? hmissing] at hvalue
    cases hvalue
  have hrun : Machine.start.run resolve x (tree.tokens number) = .ok (Machine.start.push z) :=
    Tree.run_tokens_of_value? hz
  have hassign : (Machine.start.push z).step resolve x ⟨.assign name, line⟩ =
      .ok (Machine.start.assign name z) := rfl
  rw [evaluate, evaluate, Machine.run_append_of_ok hrun, Machine.run, hassign]
  dsimp only
  rw [Machine.run_assign hz hbody]
  cases Machine.start.run resolve x (substitute name (tree.tokens number) body) <;> rfl

/-- The expression reads the `a` of the resolver, which the assignment then hides.  Its copies are
run on different heights of the stack, and the operation on the last line finds no second
operand, as without the copies. -/
theorem evaluate_let_shadowed :
    let code : List Token := [⟨.identifier "a", 1⟩, ⟨.input, 1⟩, ⟨.operation (.binary .add), 1⟩]
    let body : List Token := [⟨.identifier "a", 3⟩, ⟨.identifier "b", 3⟩, ⟨.identifier "a", 3⟩,
      ⟨.operation (.binary .mul), 3⟩, ⟨.operation (.binary .add), 3⟩]
    let failing : List Token := body ++ [⟨.operation (.binary .sub), 4⟩]
    let resolve : Resolver := fun name => if name = "a" then some ⟨5, 0⟩ else some ⟨2, 0⟩
    ExpressionCode code ∧
      (∃ values, Program.evaluate ⟨code, "a+x"⟩ resolve ⟨3, 0⟩ = .ok values) ∧
      (∀ t ∈ body, ∀ other, t.kind ≠ .assign other) ∧
      (∀ t ∈ failing, ∀ other, t.kind ≠ .assign other) ∧
      Program.evaluate ⟨substitute "a" code body, ""⟩ resolve ⟨3, 0⟩ = .ok [⟨24, 0⟩] ∧
      Program.evaluate ⟨code ++ ⟨.assign "a", 2⟩ :: body, "a+x\n= a\na+b*a"⟩ resolve ⟨3, 0⟩ =
        .ok [⟨24, 0⟩] ∧
      Program.evaluate ⟨code ++ ⟨.assign "a", 2⟩ :: failing, "a+x\n= a\na+b*a\n-"⟩
          resolve ⟨3, 0⟩ =
        .error (.stackUnderflow 4 2 1) := by
  intro code body failing resolve
  have hread : sentenceTokens "a+x".toList 1 = .ok code := by decide +kernel
  have hcode : ExpressionCode code := .sentence hread
  have hvalue : ∃ values, Program.evaluate ⟨code, "a+x"⟩ resolve ⟨3, 0⟩ = .ok values :=
    ⟨[⟨8, 0⟩], by decide +kernel⟩
  have hbody : ∀ t ∈ body, ∀ other, t.kind ≠ .assign other := by simp [body]
  have hfailing : ∀ t ∈ failing, ∀ other, t.kind ≠ .assign other := by simp [failing, body]
  have hcopies : Program.evaluate ⟨substitute "a" code body, ""⟩ resolve ⟨3, 0⟩ =
      .ok [⟨24, 0⟩] := by decide +kernel
  refine ⟨hcode, hvalue, hbody, hfailing, hcopies, ?_, ?_⟩
  · rw [evaluate_let hcode hvalue hbody "a" 2 _ ""]
    exact hcopies
  · rw [evaluate_let hcode hvalue hfailing "a" 2 _ ""]
    decide +kernel

end Program

end Argand
