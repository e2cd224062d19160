import Argand.Proofs.LiteralCalls
import Argand.Proofs.Outline

/-!
# Runs of equal programs

Programs are equal if their tokens are, up to lines and to the signs of zeros, which do not
count when numbers are compared.  Equal programs fail alike, or leave equally many values, as
no value decides which way a run goes.  The values are equal too, unless an operation takes the
angle of its operand and the operands that it meets in the two runs lie on opposite edges of the
negative half-axis.

## Main definitions

* `Token.Kind.Alike`, `Machine.Alike` — tokens and machines with alike numbers.
* `EvalError.SameButLine e e'` — the same failure, whatever the lines.
* `SameOutcome R r r'` — two runs fail alike, or their results are related.
* `Operation.angleOperand?`, `Program.angleOperand?` — the operand whose angle is taken, by an
  operation and in a step of a program.

## Main results

* `Outline.run_sameOutcome` — equal programs take the same way.
* `Machine.Alike.step`, `Machine.Alike.run` — **alike machines stay alike** while the operands
  whose angles they take are on the same sides.
* `Program.evaluate_of_beq` — the outcomes of equal programs.
-/

namespace Argand

variable {resolve : Resolver} {x : ComplexNumber Float} {t t' : Token} {ts ts' : List Token}

/-! ### Alike tokens -/

/-- The same kind of token, with alike numbers. -/
inductive Token.Kind.Alike : Token.Kind → Token.Kind → Prop
  /-- Alike numbers. -/
  | number {z w : ComplexNumber Float} (h : ComplexNumber.Alike z w) : Alike (.number z) (.number w)
  /-- The very same kind. -/
  | same (kind : Token.Kind) : Alike kind kind

/-- Equal kinds of tokens are alike. -/
theorem Token.Kind.alike_of_beq {k k' : Token.Kind} (h : (k == k') = true) : k.Alike k' := by
  cases k with
  | number z =>
    cases k' with
    | number w => exact .number (.of_beq h)
    | _ => cases h
  | identifier name =>
    cases k' with
    | identifier name' =>
      obtain rfl : name = name' := beq_iff_eq.mp h
      exact .same _
    | _ => cases h
  | operation op =>
    cases k' with
    | operation op' =>
      obtain rfl : op = op' := beq_iff_eq.mp h
      exact .same _
    | _ => cases h
  | foreign symbol =>
    cases k' with
    | foreign symbol' =>
      obtain rfl : symbol = symbol' := beq_iff_eq.mp h
      exact .same _
    | _ => cases h
  | assign name =>
    cases k' with
    | assign name' =>
      obtain rfl : name = name' := beq_iff_eq.mp h
      exact .same _
    | _ => cases h
  | input =>
    cases k' with
    | input => exact .same _
    | _ => cases h
  | blank =>
    cases k' with
    | blank => exact .same _
    | _ => cases h

/-- The tokens of equal programs are alike, one by one. -/
theorem forall₂_alike_of_beq (h : (ts == ts') = true) :
    List.Forall₂ (fun t t' => t.kind.Alike t'.kind) ts ts' := by
  induction ts generalizing ts' with
  | nil =>
    cases ts' with
    | nil => exact .nil
    | cons t' rest' => cases h
  | cons t rest ih =>
    cases ts' with
    | nil => cases h
    | cons t' rest' =>
      rw [List.cons_beq_cons, Bool.and_eq_true] at h
      exact .cons (Token.Kind.alike_of_beq h.1) (ih h.2)

/-! ### The same outcome -/

/-- The same failure, whatever the lines.  A token without a meaning is shown with its line. -/
inductive EvalError.SameButLine : EvalError → EvalError → Prop
  | stackUnderflow (line line' : Int) (needed available : Nat) :
    SameButLine (.stackUnderflow line needed available) (.stackUnderflow line' needed available)
  | unknownIdentifier (name : String) (line line' : Int) :
    SameButLine (.unknownIdentifier name line) (.unknownIdentifier name line')
  | foreign (symbol : String) : SameButLine (.invalidOperator symbol) (.invalidOperator symbol)
  | blank (line line' : Int) :
    SameButLine (.invalidOperator (blankText line)) (.invalidOperator (blankText line'))

/-- Two runs fail alike, or their results are related. -/
inductive SameOutcome {α : Type} (R : α → α → Prop) :
    Except EvalError α → Except EvalError α → Prop
  | error {e e' : EvalError} (h : e.SameButLine e') : SameOutcome R (.error e) (.error e')
  | ok {a b : α} (h : R a b) : SameOutcome R (.ok a) (.ok b)

theorem sameOutcome_ok_iff {α : Type} {R : α → α → Prop} {a b : α} :
    SameOutcome R (.ok a) (.ok b) ↔ R a b := by
  constructor
  · intro h
    cases h with
    | ok h => exact h
  · exact .ok

namespace Outline

/-- The outline of a step depends on neither a number nor a line. -/
theorem step_sameOutcome (known : String → Bool) (o : Outline) (h : t.kind.Alike t'.kind) :
    SameOutcome (· = ·) (o.step known t) (o.step known t') := by
  obtain ⟨kind, line⟩ := t
  obtain ⟨kind', line'⟩ := t'
  cases h with
  | number h => exact .ok rfl
  | same =>
    cases kind with
    | number z => exact .ok rfl
    | input => exact .ok rfl
    | foreign symbol => exact .error (.foreign symbol)
    | blank => exact .error (.blank line line')
    | assign name =>
      simp only [step]
      split
      · exact .error (.stackUnderflow line line' 1 0)
      · exact .ok rfl
    | operation op =>
      simp only [step]
      split
      · exact .error (.stackUnderflow line line' op.arity o.height)
      · exact .ok rfl
    | identifier name =>
      simp only [step]
      split
      · exact .ok rfl
      · exact .error (.unknownIdentifier name line line')

/-- **Equal programs take the same way.** -/
theorem run_sameOutcome (known : String → Bool) (o : Outline)
    (h : List.Forall₂ (fun t t' => t.kind.Alike t'.kind) ts ts') :
    SameOutcome (· = ·) (o.run known ts) (o.run known ts') := by
  induction h generalizing o with
  | nil => exact .ok rfl
  | @cons t t' rest rest' ht hrest ih =>
    have hstep := o.step_sameOutcome known ht
    rw [run, run]
    generalize o.step known t = r, o.step known t' = r' at hstep ⊢
    cases hstep with
    | error he => exact .error he
    | @ok o₁ o₂ ho =>
      obtain rfl := ho
      exact ih o₁

end Outline

/-! ### Operands whose angle is taken -/

/-- The operand whose angle an operation on the values at the top takes: that of a logarithm or
a root, the divisor, or the base of a power. -/
def Operation.angleOperand? :
    Operation → List (ComplexNumber Float) → Option (ComplexNumber Float)
  | .unary .ln, z :: _ => some z
  | .unary .sqrt, z :: _ => some z
  | .binary .div, w :: _ :: _ => some w
  | .binary .pow, _ :: z :: _ => some z
  | _, _ => none

/-- An operation takes alike stacks to alike ones, if the operands whose angle it takes are on
the same side. -/
theorem Stack.alike_apply {s s' r r' : Stack} {op : Operation} {line line' : Int}
    (hs : List.Forall₂ ComplexNumber.Alike s.items s'.items)
    (h : s.apply op line = .ok r) (h' : s'.apply op line' = .ok r')
    (hside : ∀ z w, op.angleOperand? s.items = some z → op.angleOperand? s'.items = some w →
      z.SameSide w) :
    List.Forall₂ ComplexNumber.Alike r.items r'.items := by
  obtain ⟨items⟩ := s
  obtain ⟨items'⟩ := s'
  cases op with
  | unary f =>
    cases hs with
    | nil => cases h
    | cons htop hrest =>
      obtain rfl := Except.ok.inj h
      obtain rfl := Except.ok.inj h'
      refine .cons (f.eval_alike htop ?_) hrest
      rintro (rfl | rfl)
      · exact hside _ _ rfl rfl
      · exact hside _ _ rfl rfl
  | binary f =>
    cases hs with
    | nil => cases h
    | cons htop hbelow =>
      cases hbelow with
      | nil => cases h
      | cons hsecond hrest =>
        obtain rfl := Except.ok.inj h
        obtain rfl := Except.ok.inj h'
        refine .cons (f.eval_alike hsecond htop ?_ ?_) hrest
        · rintro rfl
          exact hside _ _ rfl rfl
        · rintro rfl
          exact hside _ _ rfl rfl

namespace Machine

variable {m m' n n' : Machine}

/-- The operand whose angle a token takes. -/
def angleOperand? (m : Machine) (t : Token) : Option (ComplexNumber Float) :=
  match t.kind with
  | .operation op => op.angleOperand? m.stack.items
  | _ => none

/-- The operand whose angle is taken in a step of a run. -/
def angleOperandAt? (resolve : Resolver) (x : ComplexNumber Float) (m : Machine)
    (tokens : List Token) (k : Nat) : Option (ComplexNumber Float) :=
  match m.run resolve x (tokens.take k), tokens[k]? with
  | .ok m', some t => m'.angleOperand? t
  | _, _ => none

theorem angleOperandAt?_succ (h : m.step resolve x t = .ok m') (rest : List Token) (k : Nat) :
    m.angleOperandAt? resolve x (t :: rest) (k + 1) = m'.angleOperandAt? resolve x rest k := by
  rw [angleOperandAt?, List.take_succ_cons, run, h]
  rfl

/-! ### Alike machines -/

/-- Machines with alike values, at hand and assigned. -/
structure Alike (m m' : Machine) : Prop where
  stack : List.Forall₂ ComplexNumber.Alike m.stack.items m'.stack.items
  assigned : List.Forall₂ (fun p q => p.1 = q.1 ∧ ComplexNumber.Alike p.2 q.2)
    m.assigned m'.assigned

namespace Alike

theorem start : Alike start start := ⟨.nil, .nil⟩

theorem push {z w : ComplexNumber Float} (hm : Alike m m') (h : ComplexNumber.Alike z w) :
    Alike (m.push z) (m'.push w) :=
  ⟨.cons h hm.stack, hm.assigned⟩

/-- A name that has been assigned stands for alike values, and any other for the same. -/
theorem lookUp (hm : Alike m m') {name : String} {z w : ComplexNumber Float}
    (hz : m.lookUp resolve name = some z) (hw : m'.lookUp resolve name = some w) :
    ComplexNumber.Alike z w := by
  obtain ⟨stack, assigned⟩ := m
  obtain ⟨stack', assigned'⟩ := m'
  have hassigned := hm.assigned
  rw [Machine.lookUp] at hz hw
  dsimp only at hassigned hz hw
  clear hm
  induction hassigned with
  | nil => exact .of_eq (Option.some.inj (hz.symm.trans hw))
  | @cons p q rest rest' hpq _ ih =>
    obtain ⟨other, u⟩ := p
    obtain ⟨other', v⟩ := q
    obtain ⟨hsame, hvalues⟩ := hpq
    obtain rfl : other = other' := hsame
    rw [List.lookup_cons] at hz hw
    cases hname : name == other with
    | true =>
      rw [hname] at hz hw
      obtain rfl := Option.some.inj hz
      obtain rfl := Option.some.inj hw
      exact hvalues
    | false =>
      rw [hname] at hz hw
      exact ih hz hw

/-- **Alike machines stay alike** in a step, if the operands whose angle it takes are on the
same side. -/
theorem step (hm : Alike m m') (ht : t.kind.Alike t'.kind)
    (h : m.step resolve x t = .ok n) (h' : m'.step resolve x t' = .ok n')
    (hside : ∀ z w, m.angleOperand? t = some z → m'.angleOperand? t' = some w → z.SameSide w) :
    Alike n n' := by
  obtain ⟨kind, line⟩ := t
  obtain ⟨kind', line'⟩ := t'
  cases ht with
  | number halike =>
    obtain rfl := Except.ok.inj h
    obtain rfl := Except.ok.inj h'
    exact hm.push halike
  | same =>
    cases kind with
    | number z =>
      obtain rfl := Except.ok.inj h
      obtain rfl := Except.ok.inj h'
      exact hm.push (.refl z)
    | input =>
      obtain rfl := Except.ok.inj h
      obtain rfl := Except.ok.inj h'
      exact hm.push (.refl x)
    | foreign symbol => cases h
    | blank => cases h
    | identifier name =>
      obtain ⟨z, hz, rfl⟩ := step_identifier_eq_ok h
      obtain ⟨w, hw, rfl⟩ := step_identifier_eq_ok h'
      exact hm.push (hm.lookUp hz hw)
    | assign name =>
      obtain ⟨z, rest, hitems, rfl⟩ := step_assign_eq_ok h
      obtain ⟨w, rest', hitems', rfl⟩ := step_assign_eq_ok h'
      have hstack := hm.stack
      rw [hitems, hitems', List.forall₂_cons] at hstack
      exact ⟨hstack.2, .cons ⟨rfl, hstack.1⟩ hm.assigned⟩
    | operation op =>
      obtain ⟨s, hs, rfl⟩ := step_operation_eq_ok h
      obtain ⟨s', hs', rfl⟩ := step_operation_eq_ok h'
      exact ⟨Stack.alike_apply hm.stack hs hs' hside, hm.assigned⟩

/-- **Alike machines stay alike** in a run, if the operands whose angles it takes are on the
same sides. -/
theorem run (hm : Alike m m') (ht : List.Forall₂ (fun t t' => t.kind.Alike t'.kind) ts ts')
    (h : m.run resolve x ts = .ok n) (h' : m'.run resolve x ts' = .ok n')
    (hside : ∀ k z w, m.angleOperandAt? resolve x ts k = some z →
      m'.angleOperandAt? resolve x ts' k = some w → z.SameSide w) : Alike n n' := by
  induction ht generalizing m m' with
  | nil =>
    obtain rfl := Except.ok.inj h
    obtain rfl := Except.ok.inj h'
    exact hm
  | @cons t t' rest rest' ht _ ih =>
    obtain ⟨m₁, hstep, hrest⟩ := run_cons_eq_ok h
    obtain ⟨m₁', hstep', hrest'⟩ := run_cons_eq_ok h'
    have hm₁ : Alike m₁ m₁' := hm.step ht hstep hstep' (hside 0)
    refine ih hm₁ hrest hrest' fun k z w hz hw => hside (k + 1) z w ?_ ?_
    · rw [angleOperandAt?_succ hstep, hz]
    · rw [angleOperandAt?_succ hstep', hw]

end Alike

end Machine

namespace Program

variable {p q : Program}

/-- The operand whose angle is taken in a step of a program. -/
def angleOperand? (p : Program) (resolve : Resolver) (x : ComplexNumber Float) (k : Nat) :
    Option (ComplexNumber Float) :=
  Machine.start.angleOperandAt? resolve x p.tokens k

/-- Two texts are read as equal programs that do not leave equal values. -/
def EqualButDiffer (s t : String) : Prop :=
  ∃ p q, Program.parse s = .ok p ∧ Program.parse t = .ok q ∧ (p == q) = true ∧
    ¬SameOutcome (List.Forall₂ ComplexNumber.Matches)
      (p.evaluate (fun _ => none) ⟨0, 0⟩) (q.evaluate (fun _ => none) ⟨0, 0⟩)

/-- Single values do not match if their imaginary parts are different numbers. -/
theorem equalButDiffer_of_im {s t : String} {v w : ComplexNumber Float}
    (hp : Program.parse s = .ok p) (hq : Program.parse t = .ok q) (h : (p == q) = true)
    (hv : p.evaluate (fun _ => none) ⟨0, 0⟩ = .ok [v])
    (hw : q.evaluate (fun _ => none) ⟨0, 0⟩ = .ok [w])
    (him : (v.im == w.im) = false ∧ v.im.isNaN = false) : EqualButDiffer s t := by
  refine ⟨p, q, hp, hq, h, fun houtcome => ?_⟩
  rw [hv, hw, sameOutcome_ok_iff, List.forall₂_cons] at houtcome
  obtain ⟨⟨-, hbeq | ⟨hnan, -⟩⟩, -⟩ := houtcome
  · exact absurd (him.1.symm.trans hbeq) Bool.false_ne_true
  · exact absurd (him.2.symm.trans hnan) Bool.false_ne_true

end Program

end Argand
