import Argand.Evaluation.Batch

/-!
# Columns instead of values

A batch is a machine at each of the points, all of them in lock step.  The machine
at a point is got from the batch by taking that entry of every column; the batch
makes a step if and only if each of these machines does, and fails as they do.

## Main definitions

* `Kernels.Lifts k op` — `k` carries out `op` on every entry.
* `Batch.entry b j` — the machine at the point `j`.

## Main results

* `Batch.map_entry_step`, `Batch.map_entry_run` — **every machine of a batch makes the
  step of the batch**, and the run of it.
* `Program.map_entry_evaluateColumns` — the columns of a program hold its values.
* `Program.evaluateColumns_simulates` — on points at all, a program fails on columns if
  and only if it fails on each point, with the same error; else there is a row for each
  point, which holds the values at that point.
-/

namespace Argand

variable {n : Nat}

/-! ### Operations on columns -/

namespace Kernels

/-- An operation on columns is the operation on numbers, entry by entry. -/
def Lifts (kernels : Kernels n) : Operation → Prop
  | .unary f => ∀ (z : Column (ComplexNumber Float) n) (j : Nat) (hj : j < n),
      (kernels.unary f z)[j] = f.eval z[j]
  | .binary f => ∀ (z w : Column (ComplexNumber Float) n) (j : Nat) (hj : j < n),
      (kernels.binary f z w)[j] = f.eval z[j] w[j]

/-- The operations of a row of steps are carried out entry by entry. -/
def LiftsAll (kernels : Kernels n) (tokens : List Token) : Prop :=
  ∀ t ∈ tokens, ∀ op, t.kind = .operation op → kernels.Lifts op

/-- Each operation on numbers, entry by entry. -/
def entrywise (n : Nat) : Kernels n where
  unary f := Vector.map f.eval
  binary f := Vector.zipWith f.eval

theorem entrywise_lifts (n : Nat) (op : Operation) : (entrywise n).Lifts op := by
  cases op with
  | unary f =>
    intro z j hj
    exact Vector.getElem_map _ hj
  | binary f =>
    intro z w j hj
    exact Vector.getElem_zipWith hj

end Kernels

/-! ### The machine at a point -/

/-- An entry of a column under each name is an entry of the column of that name. -/
theorem lookup_map_snd {β γ : Type} (f : β → γ) (name : String) (l : List (String × β)) :
    (l.map fun p => (p.1, f p.2)).lookup name = (l.lookup name).map f := by
  induction l with
  | nil => rfl
  | cons p l ih =>
    rw [List.map_cons, List.lookup_cons, List.lookup_cons, ih]
    cases name == p.1 <;> rfl

namespace Batch

variable {kernels : Kernels n}

/-- The machine at a point. -/
def entry (b : Batch n) (j : Nat) (hj : j < n) : Machine where
  stack := ⟨b.columns.map (·[j])⟩
  assigned := b.assigned.map fun p => (p.1, p.2[j])

@[simp] theorem entry_start (j : Nat) (hj : j < n) : (start : Batch n).entry j hj = .start := rfl

theorem entry_push (b : Batch n) (z : Column (ComplexNumber Float) n) (j : Nat) (hj : j < n) :
    (b.push z).entry j hj = (b.entry j hj).push z[j] := rfl

/-- A name stands for an entry of its column. -/
theorem lookUp_entry (b : Batch n) (resolve : Resolver) (name : String) (j : Nat) (hj : j < n) :
    (b.entry j hj).lookUp resolve name = (b.lookUp resolve name).map (·[j]) := by
  have hassigned := lookup_map_snd (fun z : Column (ComplexNumber Float) n => z[j]) name b.assigned
  rw [Machine.lookUp, entry, hassigned, lookUp]
  cases b.assigned.lookup name with
  | some z => rfl
  | none => cases resolve name <;> simp [Column.constant]

/-- An operation on the columns on top is the operation on their entries. -/
theorem map_entry_apply (b : Batch n) {op : Operation} (hop : kernels.Lifts op) (line : Int)
    (j : Nat) (hj : j < n) :
    (b.apply kernels op line).map (·.entry j hj) =
      ((b.entry j hj).stack.apply op line).map fun stack => { b.entry j hj with stack } := by
  obtain ⟨columns, assigned⟩ := b
  cases op with
  | unary f =>
    cases columns with
    | nil => rfl
    | cons z rest =>
      have hz : (kernels.unary f z)[j] = f.eval z[j] := hop z j hj
      simp [apply, Stack.apply, entry, Except.map, hz]
  | binary f =>
    rcases columns with _ | ⟨w, _ | ⟨z, rest⟩⟩
    · rfl
    · rfl
    · have hzw : (kernels.binary f z w)[j] = f.eval z[j] w[j] := hop z w j hj
      simp [apply, Stack.apply, entry, Except.map, hzw]

/-- **Every machine of a batch makes the step of the batch.** -/
theorem map_entry_step (resolve : Resolver) (xs : Column (ComplexNumber Float) n) (b : Batch n)
    (t : Token) (ht : ∀ op, t.kind = .operation op → kernels.Lifts op) (j : Nat) (hj : j < n) :
    (b.step kernels resolve xs t).map (·.entry j hj) =
      (b.entry j hj).step resolve xs[j] t := by
  obtain ⟨kind, line⟩ := t
  cases kind with
  | number z =>
    have hz : (Column.constant n z)[j] = z := Vector.getElem_replicate hj
    simp [step, Machine.step, Except.map, entry_push, hz]
  | input => rfl
  | identifier name =>
    have hname := lookUp_entry b resolve name j hj
    simp only [step, Machine.step]
    rw [hname]
    cases b.lookUp resolve name <;> rfl
  | operation op =>
    have hop := map_entry_apply b (ht op rfl) line j hj
    simp only [step, Machine.step]
    rw [hop]
    cases (b.entry j hj).stack.apply op line <;> rfl
  | assign name =>
    obtain ⟨columns, assigned⟩ := b
    cases columns <;> rfl
  | foreign symbol => rfl
  | blank => rfl

/-- **Every machine of a batch makes the run of the batch.** -/
theorem map_entry_run (resolve : Resolver) (xs : Column (ComplexNumber Float) n) (b : Batch n)
    {tokens : List Token} (h : kernels.LiftsAll tokens) (j : Nat) (hj : j < n) :
    (b.run kernels resolve xs tokens).map (·.entry j hj) =
      (b.entry j hj).run resolve xs[j] tokens := by
  induction tokens generalizing b with
  | nil => rfl
  | cons t rest ih =>
    have hrest : kernels.LiftsAll rest := fun s hs => h s (List.mem_cons_of_mem t hs)
    have hstep := map_entry_step resolve xs b t (h t List.mem_cons_self) j hj
    rw [run, Machine.run, ← hstep]
    cases step kernels resolve xs b t with
    | error e => rfl
    | ok b' => exact ih b' hrest

end Batch

/-! ### Whole programs -/

namespace Column

/-- An entry of the column of points is the point. -/
theorem getElem_ofList {β : Type} (xs : List β) (j : Nat) (hj : j < xs.length) :
    (ofList xs)[j] = xs[j] := by
  simp [ofList]

/-- A row holds an entry of each column. -/
theorem getElem_rows {β : Type} (columns : List (Column β n)) (j : Nat) (hj : j < n) :
    (rows columns)[j]? = some (columns.map (·[j])) := by
  simp [rows, hj]

end Column

namespace Program

variable {kernels : Kernels n} {p : Program}

/-- The columns that a program leaves hold the values it leaves at each point. -/
theorem map_entry_evaluateColumns (h : kernels.LiftsAll p.tokens) (resolve : Resolver)
    (xs : Column (ComplexNumber Float) n) (j : Nat) (hj : j < n) :
    (p.evaluateColumns kernels resolve xs).map (fun columns => columns.map (·[j])) =
      p.evaluate resolve xs[j] := by
  have hrun := Batch.map_entry_run resolve xs .start h j hj
  rw [Batch.entry_start] at hrun
  rw [evaluateColumns, evaluate, ← hrun]
  cases Batch.run kernels resolve xs .start p.tokens with
  | error e => rfl
  | ok b => simp [Except.map, Batch.entry, Stack.toList]

/-- What fails at a first point fails. -/
theorem evaluateAll_eq_error {resolve : Resolver} {xs : List (ComplexNumber Float)} {e : EvalError}
    (hxs : xs ≠ []) (h : ∀ x ∈ xs, p.evaluate resolve x = .error e) :
    p.evaluateAll resolve xs = .error e := by
  cases xs with
  | nil => exact absurd rfl hxs
  | cons x xs => rw [evaluateAll, h x List.mem_cons_self]

/-- The values at all points are the values at each. -/
theorem evaluateAll_eq_ok {resolve : Resolver} {xs : List (ComplexNumber Float)}
    {rows : List (List (ComplexNumber Float))} (hlen : rows.length = xs.length)
    (h : ∀ (j : Nat) (hj : j < xs.length), p.evaluate resolve xs[j] = .ok rows[j]) :
    p.evaluateAll resolve xs = .ok rows := by
  induction xs generalizing rows with
  | nil =>
    obtain rfl := List.length_eq_zero_iff.mp hlen
    rfl
  | cons x xs ih =>
    match rows, hlen, h with
    | row :: rows, hlen, h =>
      have hx : p.evaluate resolve x = .ok row := h 0 (Nat.zero_lt_succ _)
      have hxs : p.evaluateAll resolve xs = .ok rows :=
        ih (Nat.succ.inj hlen) fun j hj => h (j + 1) (Nat.succ_lt_succ hj)
      rw [evaluateAll, hx, hxs]
      rfl

/-- **Columns hold the values of the program at each point.**  If there are points at
all, and each operation on columns is the operation on numbers, entry by entry, then
the program fails on columns if and only if it fails at the points, with the same
error.  If it does not fail, there is one row for each point, with the values the
program leaves there. -/
theorem evaluateColumns_simulates (p : Program) (resolve : Resolver)
    (xs : List (ComplexNumber Float)) (hxs : xs ≠ []) (kernels : Kernels xs.length)
    (hkernels : ∀ op, kernels.Lifts op) :
    (∀ e, p.evaluateColumns kernels resolve (Column.ofList xs) = .error e ↔
      p.evaluateAll resolve xs = .error e) ∧
    (∀ e, p.evaluateColumns kernels resolve (Column.ofList xs) = .error e →
      ∀ x ∈ xs, p.evaluate resolve x = .error e) ∧
    (∀ columns, p.evaluateColumns kernels resolve (Column.ofList xs) = .ok columns →
      p.evaluateAll resolve xs = .ok (Column.rows columns) ∧
      ∃ _ : (Column.rows columns).length = xs.length,
        ∀ (j : Nat) (hj : j < xs.length),
          p.evaluate resolve xs[j] = .ok (Column.rows columns)[j]) := by
  have hentry : ∀ (j : Nat) (hj : j < xs.length),
      (p.evaluateColumns kernels resolve (Column.ofList xs)).map
        (fun columns => columns.map (·[j])) = p.evaluate resolve xs[j] := by
    intro j hj
    rw [map_entry_evaluateColumns (fun t _ op _ => hkernels op) resolve _ j hj,
      Column.getElem_ofList]
  cases hcolumns : p.evaluateColumns kernels resolve (Column.ofList xs) with
  | error e =>
    rw [hcolumns] at hentry
    have hall : ∀ x ∈ xs, p.evaluate resolve x = .error e := by
      intro x hx
      obtain ⟨j, hj, rfl⟩ := List.mem_iff_getElem.mp hx
      exact (hentry j hj).symm
    have herror := evaluateAll_eq_error hxs hall
    refine ⟨?_, ?_, ?_⟩
    · intro e'
      rw [herror, Except.error.injEq, Except.error.injEq]
    · intro e' he
      obtain rfl := Except.error.inj he
      exact hall
    · intro columns h
      exact absurd h (by simp)
  | ok columns =>
    rw [hcolumns] at hentry
    have hlen : (Column.rows columns).length = xs.length := Column.length_rows columns
    have hrow : ∀ (j : Nat) (hj : j < xs.length),
        p.evaluate resolve xs[j] = .ok (Column.rows columns)[j] := by
      intro j hj
      have hget := Column.getElem_rows columns j hj
      rw [List.getElem?_eq_getElem (hlen.symm ▸ hj)] at hget
      rw [← hentry j hj, Option.some.inj hget]
      rfl
    have hok := evaluateAll_eq_ok hlen hrow
    refine ⟨?_, ?_, ?_⟩
    · intro e
      rw [hok]
      simp
    · intro e he
      exact absurd he (by simp)
    · intro columns' h
      obtain rfl := Except.ok.inj h
      exact ⟨hok, hlen, hrow⟩

/-- Two negated points, and two points at which an operator lacks an operand. -/
theorem evaluateColumns_simulates_two_points :
    let xs : List (ComplexNumber Float) := [⟨1, 2⟩, ⟨3, 0⟩]
    let negated : Program := ⟨[⟨.input, 1⟩, ⟨.operation (.unary .neg), 1⟩], "x\nneg"⟩
    let short : Program := ⟨[⟨.input, 1⟩, ⟨.operation (.binary .add), 2⟩], "x\n+"⟩
    xs ≠ [] ∧ (∀ op, (Kernels.entrywise xs.length).Lifts op) ∧
    (∃ columns, negated.evaluateColumns (.entrywise xs.length) (fun _ => none) (.ofList xs) =
        .ok columns ∧
      negated.evaluateAll (fun _ => none) xs = .ok (Column.rows columns)) ∧
    short.evaluateAll (fun _ => none) xs = .error (.stackUnderflow 2 2 1) := by
  intro xs negated short
  have hxs : xs ≠ [] := by simp [xs]
  have hkernels := Kernels.entrywise_lifts xs.length
  refine ⟨hxs, hkernels, ⟨_, rfl, ?_⟩, ?_⟩
  · exact ((evaluateColumns_simulates negated (fun _ => none) xs hxs _ hkernels).2.2 _ rfl).1
  · exact ((evaluateColumns_simulates short (fun _ => none) xs hxs _ hkernels).1 _).mp rfl

end Program

end Argand
