import Argand.Evaluation.Batch
import Argand.Proofs.Queues

/-!
# Snapshots of a registry

A snapshot holds each name of a registry once, with the value that a lookup finds, in the order in
which the names come first.  A program cannot tell it from the registry, as long as the registry
stays as it is; and the snapshot is what it was when the registry has changed.

## Main definitions

* `VariableSource.Agrees a b` — every program does the same with both sources of names.
* `Registry.Session` — a registry that is edited, and the snapshots that were taken of it.
* `Session.step`, `Session.run` — one move, a row of moves.

## Main results

* `Registry.lookup_reverse_snapshot` — a snapshot knows what the registry knows.
* `Registry.map_fst_snapshot` — its names are those of the registry, each once.
* `Session.kept_isPrefix_run` — snapshots that were taken stay as they are.
* `Registry.snapshot_freezes` — **a snapshot does what the registry does when it is taken, and goes
  on doing so.**
-/

namespace Argand

open Registry (Edit)

/-! ### Sources that agree -/

/-- Every program does the same with both sources of names, at a point and at several. -/
def VariableSource.Agrees (a b : VariableSource) : Prop :=
  ∃ f g, a.resolver = .ok f ∧ b.resolver = .ok g ∧ ∀ p : Program,
    (∀ x, p.evaluate f x = p.evaluate g x) ∧
    (∀ xs, p.evaluateAll f xs = p.evaluateAll g xs) ∧
    ∀ xs, p.evaluateRows f xs = p.evaluateRows g xs

/-- Sources in which the names stand for the same agree. -/
theorem VariableSource.agrees_of_resolver {a b : VariableSource} {f g : Resolver}
    (ha : a.resolver = .ok f) (hb : b.resolver = .ok g) (h : ∀ name, f name = g name) :
    a.Agrees b := by
  obtain rfl : f = g := funext h
  exact ⟨f, f, ha, hb, fun p => ⟨fun _ => rfl, fun _ => rfl, fun _ => rfl⟩⟩

/-! ### First values -/

/-- The value of a name that was not seen before is the first one. -/
theorem lookup_reverse_firstValues (seen : List String) (l : List Variable) (name : String) :
    (firstValues seen l).reverse.lookup name =
      if name ∈ seen then none else (l.find? (·.name == name)).map (·.value) := by
  induction l generalizing seen with
  | nil => simp [firstValues]
  | cons v rest ih =>
    rw [firstValues]
    by_cases hseen : v.name ∈ seen
    · rw [if_pos (List.contains_iff_mem.mpr hseen), ih]
      by_cases hname : name ∈ seen
      · rw [if_pos hname, if_pos hname]
      · -- a variable that was seen before is not the one looked for
        have hne : v.name ≠ name := fun heq => hname (heq ▸ hseen)
        rw [if_neg hname, if_neg hname, List.find?_cons, beq_false_of_ne hne]
    · rw [if_neg (fun h => hseen (List.contains_iff_mem.mp h)), List.reverse_cons,
        List.lookup_append, ih]
      by_cases heq : v.name = name
      · subst heq
        simp [hseen]
      · have hne : (name == v.name) = false := beq_false_of_ne (Ne.symm heq)
        simp [List.lookup_cons, hne, heq, Ne.symm heq]

/-- The names with their first values are those that were not seen before, each once. -/
theorem map_fst_firstValues (seen : List String) (l : List Variable) :
    (firstValues seen l).map (·.1) =
      ((l.map (·.name)).filter fun name => !seen.contains name).eraseDups := by
  induction l generalizing seen with
  | nil => rfl
  | cons v rest ih =>
    rw [firstValues, List.map_cons, List.filter_cons]
    by_cases hseen : seen.contains v.name = true
    · rw [if_pos hseen, ih, hseen]
      rfl
    · rw [if_neg hseen, List.map_cons, ih, eq_false_of_ne_true hseen]
      rw [Bool.not_false, if_pos rfl, List.eraseDups_cons, List.filter_filter]
      refine congrArg (v.name :: ·) (congrArg List.eraseDups (List.filter_congr fun name _ => ?_))
      rw [List.contains_cons, Bool.not_or]

namespace Registry

variable {r : Registry} {name : String}

/-- A snapshot knows what the registry knows. -/
theorem lookup_reverse_snapshot (r : Registry) (name : String) :
    r.snapshot.reverse.lookup name = r.resolve name := by
  rw [snapshot, lookup_reverse_firstValues, if_neg List.not_mem_nil]
  rfl

/-- The names of a snapshot are those of the registry, each once and in the order in which they
come first. -/
theorem map_fst_snapshot (r : Registry) : r.snapshot.map (·.1) = r.names.eraseDups := by
  rw [snapshot, map_fst_firstValues]
  refine congrArg List.eraseDups ?_
  exact List.filter_eq_self.mpr fun name _ => rfl

theorem contains_iff_mem_names : r.contains name = true ↔ name ∈ r.names := by
  simp [contains, find?, names]

/-- A lookup fails where the registry does not have the name. -/
theorem get_eq_error_iff : r.get name = .error (.unbound name) ↔ name ∉ r.names := by
  rw [← contains_iff_mem_names, contains, get, resolve]
  cases r.find? name <;> simp

/-- A lookup succeeds where the registry has the name. -/
theorem exists_get_eq_ok_iff : (∃ z, r.get name = .ok z) ↔ name ∈ r.names := by
  rw [← contains_iff_mem_names, contains, get, resolve]
  cases r.find? name <;> simp

example : (Registry.standard.add { name := "pi", value := ⟨1, 0⟩ }).snapshot =
    Registry.standard.snapshot := by decide +kernel

/-- A program cannot tell a snapshot from the registry. -/
theorem agrees_snapshot (r : Registry) :
    VariableSource.Agrees (.registry r) (.mapping r.snapshot) :=
  VariableSource.agrees_of_resolver rfl rfl fun name => (r.lookup_reverse_snapshot name).symm

/-! ### Sessions -/

/-- A registry with its log, and the snapshots that were taken of it, the oldest first. -/
structure Session where
  registry : Registry
  log : Log
  kept : List (List (String × ComplexNumber Float))

namespace Session

/-- What is done with a registry: it is edited, or a snapshot is taken of it. -/
inductive Move
  | edit (e : Edit)
  | snapshot

/-- One move.  An edit that fails leaves the registry as it was. -/
def step (s : Session) : Move → Session
  | .edit e =>
    let (registry, log) := (attempt (s.registry, s.log) e).2
    { s with registry, log }
  | .snapshot => { s with kept := s.kept ++ [s.registry.snapshot] }

/-- A row of moves. -/
def run (s : Session) (moves : List Move) : Session := moves.foldl step s

theorem run_append (s : Session) (before after : List Move) :
    s.run (before ++ after) = (s.run before).run after :=
  List.foldl_append

/-- No move changes the snapshots that were taken before. -/
theorem kept_isPrefix_step (s : Session) (m : Move) : s.kept <+: (s.step m).kept := by
  cases m with
  | edit e => exact List.prefix_rfl
  | snapshot => exact List.prefix_append _ _

/-- Snapshots that were taken stay as they are. -/
theorem kept_isPrefix_run (s : Session) (moves : List Move) : s.kept <+: (s.run moves).kept := by
  induction moves generalizing s with
  | nil => exact List.prefix_rfl
  | cons m rest ih => exact (s.kept_isPrefix_step m).trans (ih (s.step m))

/-- A snapshot is that of the registry at the time it was taken. -/
theorem getElem?_kept_run (s : Session) (before after : List Move) :
    (s.run (before ++ .snapshot :: after)).kept[(s.run before).kept.length]? =
      some (s.run before).registry.snapshot := by
  rw [run_append]
  generalize s.run before = t
  obtain ⟨later, hlater⟩ := (t.step .snapshot).kept_isPrefix_run after
  change ((t.step .snapshot).run after).kept[_]? = _
  rw [← hlater]
  simp [step]

end Session

/-- **A snapshot does what the registry does when it is taken, and goes on doing so.**  Programs
have the same values or fail alike with either.  The names of a snapshot are those of the registry,
each once and in the order in which they come first; these are the names that the registry
contains, and a lookup fails for all others and for none of them.  Whatever is done with the
registry afterwards, failing edits included, the snapshot that was taken is that of the registry
as it was then. -/
theorem snapshot_freezes :
    (∀ r : Registry,
      VariableSource.Agrees (.registry r) (.mapping r.snapshot) ∧
      r.snapshot.map (·.1) = r.names.eraseDups ∧
      ∀ name, (r.contains name = true ↔ name ∈ r.snapshot.map (·.1)) ∧
        ((∃ z, r.get name = .ok z) ↔ name ∈ r.snapshot.map (·.1)) ∧
        (r.get name = .error (.unbound name) ↔ name ∉ r.snapshot.map (·.1))) ∧
    ∀ (s : Session) (before after : List Session.Move), ∃ snapshot,
      (s.run (before ++ .snapshot :: after)).kept[(s.run before).kept.length]? = some snapshot ∧
      snapshot = (s.run before).registry.snapshot ∧
      VariableSource.Agrees (.registry (s.run before).registry) (.mapping snapshot) := by
  refine ⟨fun r => ⟨r.agrees_snapshot, r.map_fst_snapshot, fun name => ?_⟩, ?_⟩
  · rw [map_fst_snapshot, List.mem_eraseDups]
    exact ⟨contains_iff_mem_names, exists_get_eq_ok_iff, get_eq_error_iff⟩
  · intro s before after
    exact ⟨_, s.getElem?_kept_run before after, rfl, agrees_snapshot _⟩

end Registry

end Argand
