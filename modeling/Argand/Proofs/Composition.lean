import Argand.Proofs.Footprint

/-!
# Programs one after the other

A program that runs from an empty stack takes nothing off that it has not put there, so it runs
the same way with any values below.  It also looks up the same, if what was assigned before it
is none of its names.  Two programs one after the other then leave the values of the first and
those of the second.

## Main definitions

* `Machine.onto m base` — a machine with another one below.

## Main results

* `Machine.step_onto` — a step that succeeds does the same with a machine below.
* `Machine.run_onto` — **a run that succeeds does the same with a machine below.**
* `Program.evaluate_append` — the values of two programs one after the other.
-/

namespace Argand

variable {resolve : Resolver} {x : ComplexNumber Float} {tokens : List Token} {t : Token}

/-- An operation that finds its operands does the same with values below. -/
theorem Stack.apply_append {s s' : Stack} {op : Operation} {line : Int}
    (h : s.apply op line = .ok s') (below : List (ComplexNumber Float)) :
    (Stack.mk (s.items ++ below)).apply op line = .ok ⟨s'.items ++ below⟩ := by
  obtain ⟨items⟩ := s
  cases op with
  | unary f =>
    cases items with
    | nil => cases h
    | cons z rest =>
      obtain rfl := Except.ok.inj h
      rfl
  | binary f =>
    rcases items with _ | ⟨w, _ | ⟨z, rest⟩⟩
    · cases h
    · cases h
    · obtain rfl := Except.ok.inj h
      rfl

namespace Machine

variable {m m' base : Machine}

/-- A machine with another one below: the values of the other are at the bottom of the stack,
and its assignments are the earlier ones. -/
def onto (m base : Machine) : Machine :=
  ⟨⟨m.stack.items ++ base.stack.items⟩, m.assigned ++ base.assigned⟩

theorem start_onto (base : Machine) : start.onto base = base := rfl

theorem toList_onto : (m.onto base).stack.toList = base.stack.toList ++ m.stack.toList :=
  List.reverse_append

/-- A name that is not assigned stands for what it does in the machine below. -/
theorem lookUp_onto (name : String) :
    (m.onto base).lookUp resolve name = m.lookUp (base.lookUp resolve) name := by
  have hlookup : (m.assigned ++ base.assigned).lookup name =
      (m.assigned.lookup name).or (base.assigned.lookup name) :=
    List.lookup_append
  rw [lookUp, lookUp, lookUp, onto, hlookup, Option.or_assoc]

/-- A step that does not fail does the same with a machine below, where that gives names the
meaning that they have. -/
theorem step_onto (h : m.step (base.lookUp resolve) x t = .ok m') :
    (m.onto base).step resolve x t = .ok (m'.onto base) := by
  obtain ⟨kind, line⟩ := t
  cases kind with
  | number z =>
    obtain rfl := Except.ok.inj h
    rfl
  | input =>
    obtain rfl := Except.ok.inj h
    rfl
  | identifier name =>
    obtain ⟨z, hz, rfl⟩ := step_identifier_eq_ok h
    simp only [step]
    rw [lookUp_onto, hz]
    rfl
  | assign name =>
    obtain ⟨z, rest, hitems, rfl⟩ := step_assign_eq_ok h
    simp only [step, Stack.pop, onto, hitems, List.cons_append]
  | operation op =>
    obtain ⟨stack, hstack, rfl⟩ := step_operation_eq_ok h
    simp only [step, onto]
    rw [Stack.apply_append hstack]
  | foreign symbol => cases h
  | blank => cases h

/-- **A run that does not fail does the same with a machine below**, where that gives names the
meaning that they have. -/
theorem run_onto (h : m.run (base.lookUp resolve) x tokens = .ok m') :
    (m.onto base).run resolve x tokens = .ok (m'.onto base) := by
  induction tokens generalizing m with
  | nil =>
    obtain rfl := Except.ok.inj h
    rfl
  | cons t rest ih =>
    obtain ⟨m₁, hstep, hrest⟩ := run_cons_eq_ok h
    rw [run, step_onto hstep]
    exact ih hrest

end Machine

namespace Program

variable {p q : Program} {values : List (ComplexNumber Float)}

/-- A program leaves values if its run ends with them on the stack. -/
theorem evaluate_eq_ok_iff :
    p.evaluate resolve x = .ok values ↔
      ∃ m, Machine.start.run resolve x p.tokens = .ok m ∧ m.stack.toList = values := by
  rw [evaluate]
  cases Machine.start.run resolve x p.tokens with
  | error e =>
    constructor
    · intro h
      cases h
    · rintro ⟨m, hm, -⟩
      cases hm
  | ok m =>
    constructor
    · intro h
      exact ⟨m, rfl, Except.ok.inj h⟩
    · rintro ⟨m', hm, rfl⟩
      obtain rfl := Except.ok.inj hm
      rfl

/-- **Programs that do not depend on each other compose.**  If two programs leave values, and
the first assigns none of the names of the second, then their tokens one after the other leave
the values of the first and those of the second. -/
theorem evaluate_append {values' : List (ComplexNumber Float)}
    (hp : p.evaluate resolve x = .ok values) (hq : q.evaluate resolve x = .ok values')
    (hnames : ∀ name ∈ q.identifiers, ∀ t ∈ p.tokens, t.kind ≠ .assign name)
    (source : String) :
    Program.evaluate ⟨p.tokens ++ q.tokens, source⟩ resolve x = .ok (values ++ values') := by
  obtain ⟨m, hm, rfl⟩ := evaluate_eq_ok_iff.mp hp
  obtain ⟨m', hm', rfl⟩ := evaluate_eq_ok_iff.mp hq
  -- the second program sees the first only through the names that it assigns
  have hagree : Machine.start.run (m.lookUp resolve) x q.tokens = .ok m' := by
    rw [← hm']
    refine Machine.run_congr fun name hread => ?_
    rw [start_lookUp, Machine.lookUp_run hm (hnames name (mem_identifiers_iff.mpr hread)),
      start_lookUp]
  refine evaluate_eq_ok_iff.mpr ⟨m'.onto m, ?_, Machine.toList_onto⟩
  have honto := Machine.run_onto hagree
  rw [Machine.start_onto] at honto
  exact (Machine.run_append_of_ok hm).trans honto

/-- The first program assigns `b`, and the second assigns it again before it reads it. -/
theorem evaluate_append_reassigned :
    let p : Program := ⟨[⟨.input, 1⟩, ⟨.input, 1⟩, ⟨.assign "b", 2⟩], "x\nx\n= b"⟩
    let q : Program := ⟨[⟨.identifier "a", 1⟩, ⟨.assign "b", 2⟩, ⟨.identifier "b", 3⟩,
      ⟨.identifier "b", 3⟩, ⟨.operation (.binary .mul), 3⟩, ⟨.identifier "a", 4⟩],
      "a\n= b\nb*b\na"⟩
    let resolve : Resolver := fun name => if name = "a" then some ⟨3, 0⟩ else none
    p.evaluate resolve ⟨2, 0⟩ = .ok [⟨2, 0⟩] ∧
      q.evaluate resolve ⟨2, 0⟩ = .ok [⟨9, 0⟩, ⟨3, 0⟩] ∧
      (∀ name ∈ q.identifiers, ∀ t ∈ p.tokens, t.kind ≠ .assign name) ∧
      Program.evaluate ⟨p.tokens ++ q.tokens, ""⟩ resolve ⟨2, 0⟩ =
        .ok [⟨2, 0⟩, ⟨9, 0⟩, ⟨3, 0⟩] := by
  intro p q resolve
  have hp : p.evaluate resolve ⟨2, 0⟩ = .ok [⟨2, 0⟩] := by decide +kernel
  have hq : q.evaluate resolve ⟨2, 0⟩ = .ok [⟨9, 0⟩, ⟨3, 0⟩] := by decide +kernel
  have hnames : ∀ name ∈ q.identifiers, ∀ t ∈ p.tokens, t.kind ≠ .assign name := by decide
  exact ⟨hp, hq, hnames, evaluate_append hp hq hnames ""⟩

end Program

end Argand
