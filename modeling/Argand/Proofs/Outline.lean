import Argand.Curve
import Argand.Evaluation.Batch

/-!
# Runs without values

Which way a run goes depends on how many values are at hand and on which names are
assigned or known, and on no value.  The outline of a machine keeps only that much of it.
Outlines make steps of their own, and every machine, and every batch of columns, makes the
steps of its outline.

## Main definitions

* `Outline` — how many values there are, and which names are assigned.
* `Outline.step`, `Outline.run` — one token, a row of tokens.
* `Machine.outline`, `Batch.outline` — what is left without the values.

## Main results

* `Machine.map_outline_step`, `Machine.map_outline_run` — **a machine makes the step of its
  outline**, and the run of it.
* `Batch.map_outline_run` — the same for a batch.
* `Program.length_of_mem_evaluateAll`, `Program.length_of_mem_evaluateRows` — a program
  leaves as many values at each point as its outline has.
* `Program.flow_ignores_values` — runs that know the same names fail alike, at the same
  token, or leave equally many values; so no results are ever out of shape.
-/

namespace Argand

/-! ### Outlines -/

/-- A machine without its values: how many there are, and the names assigned so far, the
latest first. -/
structure Outline where
  height : Nat
  assigned : List String
  deriving DecidableEq, Repr

namespace Outline

/-- The outline before the first step. -/
def start : Outline := ⟨0, []⟩

/-- One value more. -/
def push (o : Outline) : Outline := { o with height := o.height + 1 }

/-- One step, if it is known which names stand for something. -/
def step (known : String → Bool) (o : Outline) (t : Token) : Except EvalError Outline :=
  match t.kind with
  | .input => .ok o.push
  | .number _ => .ok o.push
  | .assign name =>
    if o.height = 0 then .error (.stackUnderflow t.line 1 0)
    else .ok ⟨o.height - 1, name :: o.assigned⟩
  | .operation op =>
    if o.height < op.arity then .error (.stackUnderflow t.line op.arity o.height)
    else .ok { o with height := o.height - op.arity + 1 }
  | .identifier name =>
    if o.assigned.contains name || known name then .ok o.push
    else .error (.unknownIdentifier name t.line)
  | .foreign symbol => .error (.invalidOperator symbol)
  | .blank => .error (.invalidOperator (blankText t.line))

/-- A row of steps; it ends at the first that fails. -/
def run (known : String → Bool) (o : Outline) : List Token → Except EvalError Outline
  | [] => .ok o
  | t :: rest =>
    match step known o t with
    | .error e => .error e
    | .ok o' => run known o' rest

end Outline

/-- Which names stand for something. -/
def Resolver.knows (resolve : Resolver) (name : String) : Bool := (resolve name).isSome

/-- A name has a value exactly if it is among the names. -/
theorem isSome_lookup {β : Type} (name : String) (l : List (String × β)) :
    (l.lookup name).isSome = (l.map (·.1)).contains name := by
  induction l with
  | nil => rfl
  | cons p l ih =>
    rw [List.lookup_cons, List.map_cons, List.contains_cons, ← ih]
    cases name == p.1 <;> rfl

/-! ### The outline of a machine -/

namespace Machine

/-- The machine without its values. -/
def outline (m : Machine) : Outline := ⟨m.stack.size, m.assigned.map (·.1)⟩

theorem outline_push (m : Machine) (z : ComplexNumber Float) :
    (m.push z).outline = m.outline.push := rfl

/-- A name is found if it is assigned or known. -/
theorem isSome_lookUp (m : Machine) (resolve : Resolver) (name : String) :
    (m.lookUp resolve name).isSome =
      (m.outline.assigned.contains name || resolve.knows name) := by
  rw [lookUp, Option.isSome_or, isSome_lookup]
  rfl

/-- **A machine makes the step of its outline.** -/
theorem map_outline_step (resolve : Resolver) (x : ComplexNumber Float) (m : Machine)
    (t : Token) : (m.step resolve x t).map outline = m.outline.step resolve.knows t := by
  obtain ⟨kind, line⟩ := t
  obtain ⟨⟨items⟩, assigned⟩ := m
  cases kind with
  | number z => rfl
  | input => rfl
  | foreign symbol => rfl
  | blank => rfl
  | assign name => cases items <;> rfl
  | operation op =>
    cases op with
    | unary f => cases items <;> rfl
    | binary f =>
      rcases items with _ | ⟨w, _ | ⟨z, rest⟩⟩
      · rfl
      · rfl
      · simp [step, Stack.apply, Outline.step, outline, Stack.size, Operation.arity, Except.map]
  | identifier name =>
    have hfound := isSome_lookUp ⟨⟨items⟩, assigned⟩ resolve name
    simp only [step, Outline.step]
    rw [← hfound]
    cases lookUp ⟨⟨items⟩, assigned⟩ resolve name <;> rfl

/-- **A machine makes the run of its outline.** -/
theorem map_outline_run (resolve : Resolver) (x : ComplexNumber Float) (m : Machine)
    (tokens : List Token) :
    (m.run resolve x tokens).map outline = m.outline.run resolve.knows tokens := by
  induction tokens generalizing m with
  | nil => rfl
  | cons t rest ih =>
    rw [run, Outline.run, ← map_outline_step resolve x m t]
    cases m.step resolve x t with
    | error e => rfl
    | ok m' => exact ih m'

/-- A run leaves as many values as its outline has. -/
theorem map_size_run (resolve : Resolver) (x : ComplexNumber Float) (m : Machine)
    (tokens : List Token) :
    (m.run resolve x tokens).map (·.stack.size) =
      (m.outline.run resolve.knows tokens).map (·.height) := by
  rw [← map_outline_run resolve x m tokens]
  cases m.run resolve x tokens <;> rfl

end Machine

/-! ### The outline of a batch -/

namespace Batch

variable {n : Nat}

/-- The batch without its columns. -/
def outline (b : Batch n) : Outline := ⟨b.columns.length, b.assigned.map (·.1)⟩

/-- A name is found if it is assigned or known. -/
theorem isSome_lookUp (b : Batch n) (resolve : Resolver) (name : String) :
    (b.lookUp resolve name).isSome =
      (b.outline.assigned.contains name || resolve.knows name) := by
  have hassigned := isSome_lookup name b.assigned
  rw [outline, ← hassigned, lookUp]
  cases b.assigned.lookup name with
  | some c => rfl
  | none => exact Option.isSome_map

/-- A batch makes the step of its outline. -/
theorem map_outline_step (kernels : Kernels n) (resolve : Resolver)
    (xs : Column (ComplexNumber Float) n) (b : Batch n) (t : Token) :
    (b.step kernels resolve xs t).map outline = b.outline.step resolve.knows t := by
  obtain ⟨kind, line⟩ := t
  obtain ⟨columns, assigned⟩ := b
  cases kind with
  | number z => rfl
  | input => rfl
  | foreign symbol => rfl
  | blank => rfl
  | assign name => cases columns <;> rfl
  | operation op =>
    cases op with
    | unary f => cases columns <;> rfl
    | binary f =>
      rcases columns with _ | ⟨w, _ | ⟨z, rest⟩⟩
      · rfl
      · rfl
      · simp [step, apply, Outline.step, outline, Operation.arity, Except.map]
  | identifier name =>
    have hfound := isSome_lookUp ⟨columns, assigned⟩ resolve name
    simp only [step, Outline.step]
    rw [← hfound]
    cases lookUp ⟨columns, assigned⟩ resolve name <;> rfl

/-- **A batch makes the run of its outline.** -/
theorem map_outline_run (kernels : Kernels n) (resolve : Resolver)
    (xs : Column (ComplexNumber Float) n) (b : Batch n) (tokens : List Token) :
    (b.run kernels resolve xs tokens).map outline = b.outline.run resolve.knows tokens := by
  induction tokens generalizing b with
  | nil => rfl
  | cons t rest ih =>
    rw [run, Outline.run, ← map_outline_step kernels resolve xs b t]
    cases b.step kernels resolve xs t with
    | error e => rfl
    | ok b' => exact ih b'

end Batch

/-! ### Results in shape -/

/-- Rows of one length are in shape. -/
theorem checkShape_eq_ok {β : Type} {rows : List (List β)} {count : Nat}
    (h : ∀ row ∈ rows, row.length = count) : checkShape rows = .ok () := by
  cases rows with
  | nil => rfl
  | cons first rest =>
    have hfirst : first.length = count := h first List.mem_cons_self
    have hmisfit : firstMisfit? (outputCount (first :: rest)) 0 (first :: rest) = none := by
      rw [outputCount, hfirst]
      exact firstMisfit?_eq_none_iff.mpr h
    rw [checkShape, hmisfit]

namespace Program

variable {p : Program} {resolve : Resolver}

/-- The number of values that a program leaves is the height its outline gets. -/
theorem map_length_evaluate (p : Program) (resolve : Resolver) (x : ComplexNumber Float) :
    (p.evaluate resolve x).map (·.length) =
      (Outline.start.run resolve.knows p.tokens).map (·.height) := by
  refine Eq.trans ?_ (Machine.map_size_run resolve x .start p.tokens)
  rw [evaluate]
  cases Machine.start.run resolve x p.tokens with
  | error e => rfl
  | ok m => simp [Except.map]

/-- The number of columns that a program leaves is the height its outline gets. -/
theorem map_length_evaluateColumns {n : Nat} (p : Program) (kernels : Kernels n)
    (resolve : Resolver) (xs : Column (ComplexNumber Float) n) :
    (p.evaluateColumns kernels resolve xs).map (·.length) =
      (Outline.start.run resolve.knows p.tokens).map (·.height) := by
  have hrun : (Batch.start.run kernels resolve xs p.tokens).map Batch.outline =
      Outline.start.run resolve.knows p.tokens :=
    Batch.map_outline_run kernels resolve xs .start p.tokens
  rw [evaluateColumns, ← hrun]
  cases Batch.start.run kernels resolve xs p.tokens with
  | error e => rfl
  | ok b => simp [Except.map, Batch.outline]

/-- A program leaves as many values at each point as its outline has. -/
theorem length_of_mem_evaluateAll {xs : List (ComplexNumber Float)}
    {rows : List (List (ComplexNumber Float))} (h : p.evaluateAll resolve xs = .ok rows) :
    ∀ row ∈ rows, (Outline.start.run resolve.knows p.tokens).map (·.height) =
      .ok row.length := by
  induction xs generalizing rows with
  | nil =>
    obtain rfl := Except.ok.inj h
    intro row hrow
    exact absurd hrow List.not_mem_nil
  | cons x xs ih =>
    have hlength := map_length_evaluate p resolve x
    rw [evaluateAll] at h
    cases hx : p.evaluate resolve x with
    | error e => rw [hx] at h; exact absurd h (by simp)
    | ok values =>
      rw [hx] at h hlength
      cases hxs : p.evaluateAll resolve xs with
      | error e => rw [hxs] at h; exact absurd h (by simp [Except.map])
      | ok others =>
        rw [hxs] at h
        obtain rfl := Except.ok.inj h
        intro row hrow
        rcases List.mem_cons.mp hrow with rfl | hrow
        · exact hlength.symm
        · exact ih hxs row hrow

/-- Rows that are read off columns have an entry from each column. -/
theorem length_of_mem_evaluateRows {xs : List (ComplexNumber Float)} {count : Nat}
    {rows : List (List (ComplexNumber Float))} (h : p.evaluateRows resolve xs = .ok (count, rows)) :
    ∀ row ∈ rows, row.length = count := by
  rw [evaluateRows] at h
  cases hcolumns : p.evaluateColumns (.standard xs.length) resolve (Column.ofList xs) with
  | error e => rw [hcolumns] at h; exact absurd h (by simp [Except.map])
  | ok columns =>
    rw [hcolumns] at h
    obtain ⟨rfl, rfl⟩ := Prod.mk.inj (Except.ok.inj h)
    intro row hrow
    obtain ⟨j, rfl⟩ := List.mem_ofFn.mp hrow
    exact List.length_map _

/-- The values at several points are in shape. -/
theorem checkShape_evaluateAll {xs : List (ComplexNumber Float)}
    {rows : List (List (ComplexNumber Float))} (h : p.evaluateAll resolve xs = .ok rows) :
    checkShape rows = .ok () := by
  have hlength := length_of_mem_evaluateAll h
  cases hrun : Outline.start.run resolve.knows p.tokens with
  | error e =>
    -- a program whose outline fails leaves no row
    rw [hrun] at hlength
    have hempty : ∀ row ∈ rows, row.length = 0 := fun row hrow =>
      absurd (hlength row hrow) (by simp [Except.map])
    exact checkShape_eq_ok hempty
  | ok o =>
    rw [hrun] at hlength
    exact checkShape_eq_ok fun row hrow => (Except.ok.inj (hlength row hrow)).symm

/-- The values that are read off columns are in shape. -/
theorem checkShape_evaluateRows {xs : List (ComplexNumber Float)} {count : Nat}
    {rows : List (List (ComplexNumber Float))} (h : p.evaluateRows resolve xs = .ok (count, rows)) :
    checkShape rows = .ok () :=
  checkShape_eq_ok (length_of_mem_evaluateRows h)

/-! ### Two runs -/

/-- **Runs that know the same names take the same way.**  Whatever the names stand for and
wherever the program is evaluated, one at a point or many in columns, either all runs fail,
at the same token and with the same error, or all leave equally many values.  So the values
at several points are never out of shape. -/
theorem flow_ignores_values (p : Program) :
    (∀ (resolve resolve' : Resolver) (x y : ComplexNumber Float),
      (∀ name, (resolve name).isSome = (resolve' name).isSome) →
      (∀ k, (Machine.start.run resolve x (p.tokens.take k)).map (·.stack.size) =
        (Machine.start.run resolve' y (p.tokens.take k)).map (·.stack.size)) ∧
      (p.evaluate resolve x).map (·.length) = (p.evaluate resolve' y).map (·.length) ∧
      ∀ (n : Nat) (kernels : Kernels n) (xs : Column (ComplexNumber Float) n),
        (p.evaluateColumns kernels resolve xs).map (·.length) =
          (p.evaluate resolve' y).map (·.length)) ∧
    (∀ (resolve : Resolver) (xs : List (ComplexNumber Float))
        (rows : List (List (ComplexNumber Float))),
      p.evaluateAll resolve xs = .ok rows → checkShape rows = .ok ()) ∧
    (∀ (resolve : Resolver) (xs : List (ComplexNumber Float)) (count : Nat)
        (rows : List (List (ComplexNumber Float))),
      p.evaluateRows resolve xs = .ok (count, rows) → checkShape rows = .ok ()) := by
  refine ⟨?_, fun _ _ _ h => checkShape_evaluateAll h, fun _ _ _ _ h => checkShape_evaluateRows h⟩
  intro resolve resolve' x y hsame
  have hknows : resolve.knows = resolve'.knows := funext hsame
  refine ⟨?_, ?_, ?_⟩
  · intro k
    rw [Machine.map_size_run, Machine.map_size_run, hknows]
  · rw [map_length_evaluate, map_length_evaluate, hknows]
  · intro n kernels xs
    rw [map_length_evaluateColumns, map_length_evaluate, hknows]

/-- A sum that lacks an operand lacks it whether the quotient before it is undefined or
not, and the quotients at two points are in shape. -/
theorem flow_ignores_values_quotient :
    let quotient : List Token := [⟨.input, 1⟩, ⟨.identifier "a", 1⟩, ⟨.operation (.binary .div), 1⟩]
    let lacking : Program := ⟨quotient ++ [⟨.operation (.binary .add), 2⟩], "x/a\n+"⟩
    let zero : Resolver := fun name => if name = "a" then some ⟨0, 0⟩ else none
    let two : Resolver := fun name => if name = "a" then some ⟨2, 0⟩ else none
    (∀ name, (zero name).isSome = (two name).isSome) ∧
    lacking.evaluate zero ⟨0, 0⟩ = .error (.stackUnderflow 2 2 1) ∧
    lacking.evaluate two ⟨7, 1⟩ = .error (.stackUnderflow 2 2 1) ∧
    ∃ rows, (Program.mk quotient "x/a").evaluateAll zero [⟨0, 0⟩, ⟨1, 0⟩] = .ok rows ∧
      rows.length = 2 ∧ checkShape rows = .ok () := by
  intro quotient lacking zero two
  have hnames : ∀ name, (zero name).isSome = (two name).isSome := by
    intro name
    by_cases h : name = "a" <;> simp [zero, two, h]
  have hzero : lacking.evaluate zero ⟨0, 0⟩ = .error (.stackUnderflow 2 2 1) := rfl
  have hflow := ((flow_ignores_values lacking).1 zero two ⟨0, 0⟩ ⟨7, 1⟩ hnames).2.1
  refine ⟨hnames, hzero, ?_, _, rfl, rfl, ?_⟩
  · rw [hzero] at hflow
    cases htwo : lacking.evaluate two ⟨7, 1⟩ with
    | error e =>
      rw [htwo] at hflow
      rw [Except.error.inj hflow]
    | ok values => rw [htwo] at hflow; exact absurd hflow (by simp [Except.map])
  · exact (flow_ignores_values ⟨quotient, "x/a"⟩).2.1 zero [⟨0, 0⟩, ⟨1, 0⟩] _ rfl

end Program

end Argand
