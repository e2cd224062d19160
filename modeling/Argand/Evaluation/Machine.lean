import Argand.Evaluation.Stack
import Argand.Program

/-!
# Running a program at a point

A machine runs the steps of a program one after the other.  It holds a stack and
the names assigned so far, which come before anything the resolver knows.

## Main definitions

* `Machine` — the stack and the assigned names.
* `Machine.lookUp` — what a name stands for.
* `Machine.step`, `Machine.run` — one token, a row of tokens.
* `Program.evaluate` — the values a program leaves at a point.
* `Program.evaluateAll` — the same at each of several points.
-/

namespace Argand

/-- The text a token without a meaning is shown as. -/
def blankText (line : Int) : String := "Token(line=" ++ toString line ++ ")"

/-- The values at hand and the names assigned so far, the latest first. -/
structure Machine where
  stack : Stack
  assigned : List (String × ComplexNumber Float)
  deriving DecidableEq, Repr

namespace Machine

/-- The machine before the first step. -/
def start : Machine := ⟨.empty, []⟩

/-- What a name stands for: its latest assignment, else what the resolver
says. -/
def lookUp (m : Machine) (resolve : Resolver) (name : String) : Option (ComplexNumber Float) :=
  (m.assigned.lookup name).or (resolve name)

/-- Puts a value on the stack. -/
def push (m : Machine) (z : ComplexNumber Float) : Machine := { m with stack := m.stack.push z }

/-- One step of a program that is evaluated at `x`. -/
def step (resolve : Resolver) (x : ComplexNumber Float) (m : Machine) (t : Token) :
    Except EvalError Machine :=
  match t.kind with
  | .input => .ok (m.push x)
  | .number z => .ok (m.push z)
  | .assign name =>
    match m.stack.pop t.line with
    | .error e => .error e
    | .ok (z, stack) => .ok ⟨stack, (name, z) :: m.assigned⟩
  | .operation op =>
    match m.stack.apply op t.line with
    | .error e => .error e
    | .ok stack => .ok { m with stack }
  | .identifier name =>
    match m.lookUp resolve name with
    | none => .error (.unknownIdentifier name t.line)
    | some z => .ok (m.push z)
  | .foreign symbol => .error (.invalidOperator symbol)
  | .blank => .error (.invalidOperator (blankText t.line))

/-- A row of steps; it ends at the first that fails. -/
def run (resolve : Resolver) (x : ComplexNumber Float) (m : Machine) :
    List Token → Except EvalError Machine
  | [] => .ok m
  | t :: rest =>
    match step resolve x m t with
    | .error e => .error e
    | .ok m' => run resolve x m' rest

@[simp] theorem run_nil (resolve : Resolver) (x : ComplexNumber Float) (m : Machine) :
    run resolve x m [] = .ok m := rfl

/-- A single step is a run. -/
theorem run_singleton (resolve : Resolver) (x : ComplexNumber Float) (m : Machine) (t : Token) :
    m.run resolve x [t] = m.step resolve x t := by
  rw [run]
  cases m.step resolve x t <;> rfl

/-- Two rows of steps are run one after the other. -/
theorem run_append (resolve : Resolver) (x : ComplexNumber Float) (m : Machine)
    (s t : List Token) :
    run resolve x m (s ++ t) =
      match run resolve x m s with
      | .error e => .error e
      | .ok m' => run resolve x m' t := by
  induction s generalizing m with
  | nil => rfl
  | cons a s ih =>
    simp only [List.cons_append, run]
    cases step resolve x m a with
    | error e => rfl
    | ok m' => exact ih m'

variable {resolve : Resolver} {x : ComplexNumber Float} {m m' : Machine} {s t : List Token}

/-- What a machine does after the first steps have led to another one. -/
theorem run_append_of_ok (h : run resolve x m s = .ok m') :
    run resolve x m (s ++ t) = run resolve x m' t := by
  rw [run_append, h]

/-- What fails in the first steps fails. -/
theorem run_append_of_error {e : EvalError} (h : run resolve x m s = .error e) :
    run resolve x m (s ++ t) = .error e := by
  rw [run_append, h]

/-- A row of steps that does not fail, cut behind the first. -/
theorem run_cons_eq_ok {t : Token} (h : m.run resolve x (t :: s) = .ok m') :
    ∃ m₁, m.step resolve x t = .ok m₁ ∧ m₁.run resolve x s = .ok m' := by
  rw [run] at h
  cases hstep : m.step resolve x t with
  | error e =>
    rw [hstep] at h
    cases h
  | ok m₁ =>
    rw [hstep] at h
    exact ⟨m₁, rfl, h⟩

/-! ### Steps that do not fail -/

theorem step_identifier_eq_ok {name : String} {line : Int}
    (h : m.step resolve x ⟨.identifier name, line⟩ = .ok m') :
    ∃ z, m.lookUp resolve name = some z ∧ m' = m.push z := by
  simp only [step] at h
  cases hz : m.lookUp resolve name with
  | none =>
    rw [hz] at h
    cases h
  | some z =>
    rw [hz] at h
    exact ⟨z, rfl, (Except.ok.inj h).symm⟩

theorem step_assign_eq_ok {name : String} {line : Int}
    (h : m.step resolve x ⟨.assign name, line⟩ = .ok m') :
    ∃ z rest, m.stack.items = z :: rest ∧ m' = ⟨⟨rest⟩, (name, z) :: m.assigned⟩ := by
  obtain ⟨⟨items⟩, assigned⟩ := m
  cases items with
  | nil => cases h
  | cons z rest => exact ⟨z, rest, rfl, (Except.ok.inj h).symm⟩

theorem step_operation_eq_ok {op : Operation} {line : Int}
    (h : m.step resolve x ⟨.operation op, line⟩ = .ok m') :
    ∃ stack, m.stack.apply op line = .ok stack ∧ m' = { m with stack } := by
  simp only [step] at h
  cases hstack : m.stack.apply op line with
  | error e =>
    rw [hstack] at h
    cases h
  | ok stack =>
    rw [hstack] at h
    exact ⟨stack, rfl, (Except.ok.inj h).symm⟩

/-- Only an assignment changes what is assigned. -/
theorem assigned_step {t : Token} (h : m.step resolve x t = .ok m') :
    ((∀ name, t.kind ≠ .assign name) ∧ m'.assigned = m.assigned) ∨
      ∃ name z, t.kind = .assign name ∧ m'.assigned = (name, z) :: m.assigned := by
  obtain ⟨kind, line⟩ := t
  cases kind with
  | assign name =>
    obtain ⟨z, rest, -, rfl⟩ := step_assign_eq_ok h
    exact .inr ⟨name, z, rfl, rfl⟩
  | operation op =>
    obtain ⟨stack, -, rfl⟩ := step_operation_eq_ok h
    exact .inl ⟨fun _ => Token.Kind.noConfusion, rfl⟩
  | identifier name =>
    obtain ⟨z, -, rfl⟩ := step_identifier_eq_ok h
    exact .inl ⟨fun _ => Token.Kind.noConfusion, rfl⟩
  | number z =>
    obtain rfl := Except.ok.inj h
    exact .inl ⟨fun _ => Token.Kind.noConfusion, rfl⟩
  | input =>
    obtain rfl := Except.ok.inj h
    exact .inl ⟨fun _ => Token.Kind.noConfusion, rfl⟩
  | foreign symbol => cases h
  | blank => cases h

end Machine

/-! ### Whole programs -/

/-- The values that a program leaves when it is evaluated at `x`, in the order
they were pushed. -/
def Program.evaluate (p : Program) (resolve : Resolver) (x : ComplexNumber Float) :
    Except EvalError (List (ComplexNumber Float)) :=
  (Machine.start.run resolve x p.tokens).map (·.stack.toList)

/-- The values of a program at each of several points; the first error counts for
all. -/
def Program.evaluateAll (p : Program) (resolve : Resolver) :
    List (ComplexNumber Float) → Except EvalError (List (List (ComplexNumber Float)))
  | [] => .ok []
  | x :: xs =>
    match p.evaluate resolve x with
    | .error e => .error e
    | .ok values => (p.evaluateAll resolve xs).map (values :: ·)

end Argand
