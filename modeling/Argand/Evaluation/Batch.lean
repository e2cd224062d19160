import Argand.Evaluation.Column
import Argand.Evaluation.Machine

/-!
# Running a program at many points at once

No step of a program depends on a value, so a program can be run once on columns
instead of once for each point.  Everything is as on a machine, with a column in
the place of each value, and an error is reported once for all points.

## Main definitions

* `Batch` — the columns at hand and those assigned to names.
* `Batch.step`, `Batch.run` — one token, a row of tokens.
* `Program.evaluateColumns` — the columns a program leaves.
* `Program.evaluateRows` — the values it leaves at each point.
-/

namespace Argand

/-- The columns at hand, the top first, and the columns assigned to names, the
latest first. -/
structure Batch (n : Nat) where
  columns : List (Column (ComplexNumber Float) n)
  assigned : List (String × Column (ComplexNumber Float) n)

namespace Batch

variable {n : Nat}

/-- The batch before the first step. -/
def start : Batch n := ⟨[], []⟩

/-- Puts a column on top. -/
def push (b : Batch n) (c : Column (ComplexNumber Float) n) : Batch n :=
  { b with columns := c :: b.columns }

/-- The column of a name: its latest assignment, else what the resolver says
everywhere. -/
def lookUp (b : Batch n) (resolve : Resolver) (name : String) :
    Option (Column (ComplexNumber Float) n) :=
  match b.assigned.lookup name with
  | some c => some c
  | none => (resolve name).map (Column.constant n)

/-- Replaces the columns on top by the result of an operation. -/
def apply (b : Batch n) (kernels : Kernels n) (op : Operation) (line : Int) :
    Except EvalError (Batch n) :=
  match op, b.columns with
  | .binary f, w :: z :: rest => .ok { b with columns := kernels.binary f z w :: rest }
  | .unary f, z :: rest => .ok { b with columns := kernels.unary f z :: rest }
  | _, _ => .error (.stackUnderflow line op.arity b.columns.length)

/-- One step of a program that is evaluated at the points `xs`. -/
def step (kernels : Kernels n) (resolve : Resolver) (xs : Column (ComplexNumber Float) n)
    (b : Batch n) (t : Token) : Except EvalError (Batch n) :=
  match t.kind with
  | .input => .ok (b.push xs)
  | .number z => .ok (b.push (Column.constant n z))
  | .assign name =>
    match b.columns with
    | [] => .error (.stackUnderflow t.line 1 0)
    | c :: rest => .ok ⟨rest, (name, c) :: b.assigned⟩
  | .operation op => b.apply kernels op t.line
  | .identifier name =>
    match b.lookUp resolve name with
    | none => .error (.unknownIdentifier name t.line)
    | some c => .ok (b.push c)
  | .foreign symbol => .error (.invalidOperator symbol)
  | .blank => .error (.invalidOperator (blankText t.line))

/-- A row of steps; it ends at the first that fails. -/
def run (kernels : Kernels n) (resolve : Resolver) (xs : Column (ComplexNumber Float) n)
    (b : Batch n) : List Token → Except EvalError (Batch n)
  | [] => .ok b
  | t :: rest =>
    match step kernels resolve xs b t with
    | .error e => .error e
    | .ok b' => run kernels resolve xs b' rest

@[simp] theorem run_nil (kernels : Kernels n) (resolve : Resolver)
    (xs : Column (ComplexNumber Float) n) (b : Batch n) :
    run kernels resolve xs b [] = .ok b := rfl

end Batch

/-! ### Whole programs -/

/-- The columns that a program leaves at the points `xs`, in the order they were
pushed. -/
def Program.evaluateColumns {n : Nat} (p : Program) (kernels : Kernels n) (resolve : Resolver)
    (xs : Column (ComplexNumber Float) n) :
    Except EvalError (List (Column (ComplexNumber Float) n)) :=
  (Batch.start.run kernels resolve xs p.tokens).map (·.columns.reverse)

/-- Points as a column. -/
def Column.ofList {β : Type} (xs : List β) : Column β xs.length := ⟨xs.toArray, by simp⟩

/-- How many values a program leaves, and the values at each of the points. -/
def Program.evaluateRows (p : Program) (resolve : Resolver) (xs : List (ComplexNumber Float)) :
    Except EvalError (Nat × List (List (ComplexNumber Float))) :=
  (p.evaluateColumns (.standard xs.length) resolve (Column.ofList xs)).map fun columns =>
    (columns.length, Column.rows columns)

end Argand
