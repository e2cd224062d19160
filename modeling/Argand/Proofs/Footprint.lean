import Argand.Evaluation.Machine
import Argand.Proofs.Readers

/-!
# What a program looks up

A program looks a name up where it reads the name without having assigned it before.  Which
names these are is found without running the program, and they are all that a run sees of a
resolver.

## Main definitions

* `Reads name tokens` — the name is read before it is assigned.
* `Resolver.without missing` — some names do not stand for anything any more.

## Main results

* `Program.mem_identifiers_iff` — the names of a program are those that it reads before it
  assigns them.
* `Program.exists_first_missing` — the first of them that is missing is read before any other
  that is.
* `Machine.run_congr` — **a run depends on what the names that it reads stand for**, and on
  nothing else that a resolver knows.
* `Machine.reads_of_run_eq_error` — a name that stops a run is read, and stands for nothing.
* `Program.identifiers_footprint` — the names of a program are its footprint.
-/

namespace Argand

variable {name : String} {t : Token} {ts rest : List Token} {assigned listed : List String}

/-! ### Names that are read -/

/-- A name is read by the tokens before they assign it. -/
inductive Reads (name : String) : List Token → Prop
  /-- The first token reads it. -/
  | here {t : Token} {rest : List Token} (h : t.kind = .identifier name) : Reads name (t :: rest)
  /-- A later token reads it, and the first does not assign it. -/
  | later {t : Token} {rest : List Token} (hfirst : t.kind ≠ .assign name)
      (h : Reads name rest) : Reads name (t :: rest)

theorem not_reads_nil : ¬Reads name [] := nofun

theorem reads_cons_iff :
    Reads name (t :: rest) ↔
      t.kind = .identifier name ∨ t.kind ≠ .assign name ∧ Reads name rest := by
  constructor
  · intro h
    cases h with
    | here h => exact .inl h
    | later hfirst h => exact .inr ⟨hfirst, h⟩
  · rintro (h | ⟨hfirst, h⟩)
    · exact .here h
    · exact .later hfirst h

/-- A name that no token reads is not read. -/
theorem not_reads_of_forall (h : ∀ t ∈ ts, t.kind ≠ .identifier name) : ¬Reads name ts := by
  intro hread
  induction hread with
  | here hkind => exact h _ List.mem_cons_self hkind
  | later _ _ ih => exact ih fun s hs => h s (List.mem_cons_of_mem _ hs)

/-- There is a first token that reads a name, and the name is not assigned before. -/
theorem Reads.exists_split (h : Reads name ts) :
    ∃ before t after, ts = before ++ t :: after ∧ t.kind = .identifier name ∧
      ∀ s ∈ before, s.kind ≠ .identifier name ∧ s.kind ≠ .assign name := by
  induction h with
  | @here t rest hkind => exact ⟨[], t, rest, rfl, hkind, List.forall_mem_nil _⟩
  | @later t rest hfirst _ ih =>
    by_cases hkind : t.kind = .identifier name
    · exact ⟨[], t, rest, rfl, hkind, List.forall_mem_nil _⟩
    · obtain ⟨before, u, after, rfl, hu, hbefore⟩ := ih
      refine ⟨t :: before, u, after, rfl, hu, ?_⟩
      exact List.forall_mem_cons.mpr ⟨⟨hkind, hfirst⟩, hbefore⟩

/-! ### Names that are found -/

/-- The names that are found are those listed before and those that are read. -/
theorem mem_identifiersFrom_iff :
    name ∈ identifiersFrom assigned listed ts ↔
      name ∈ listed ∨ name ∉ assigned ∧ Reads name ts := by
  fun_induction identifiersFrom assigned listed ts with
  | case1 assigned listed => simp [not_reads_nil]
  | case2 assigned listed t rest other hkind ih =>
    rw [ih, reads_cons_iff, hkind, List.mem_cons, not_or]
    grind
  | case3 assigned listed t rest other hkind hold ih =>
    rw [ih, reads_cons_iff, hkind]
    grind
  | case4 assigned listed t rest other hkind hnew ih =>
    rw [ih, reads_cons_iff, hkind, List.mem_append, List.mem_singleton]
    have hfree : other ∉ assigned := by simp_all
    grind
  | case5 assigned listed t rest hassign hidentifier ih =>
    rw [ih, reads_cons_iff]
    grind

/-- What is listed stays at the front. -/
theorem isPrefix_identifiersFrom : listed <+: identifiersFrom assigned listed ts := by
  fun_induction identifiersFrom assigned listed ts with
  | case1 assigned listed => exact List.prefix_rfl
  | case2 assigned listed t rest other hkind ih => exact ih
  | case3 assigned listed t rest other hkind hold ih => exact ih
  | case4 assigned listed t rest other hkind hnew ih =>
    exact (List.prefix_append listed [other]).trans ih
  | case5 assigned listed t rest hassign hidentifier ih => exact ih

/-- The names of the first tokens are found first. -/
theorem isPrefix_identifiersFrom_append (after : List Token) :
    identifiersFrom assigned listed ts <+: identifiersFrom assigned listed (ts ++ after) := by
  fun_induction identifiersFrom assigned listed ts with
  | case1 assigned listed => exact isPrefix_identifiersFrom
  | case2 assigned listed t rest other hkind ih =>
    rw [List.cons_append, identifiersFrom, hkind]
    exact ih
  | case3 assigned listed t rest other hkind hold ih =>
    rw [List.cons_append, identifiersFrom, hkind]
    simpa only [if_pos hold] using ih
  | case4 assigned listed t rest other hkind hnew ih =>
    rw [List.cons_append, identifiersFrom, hkind]
    simpa only [if_neg hnew] using ih
  | case5 assigned listed t rest hassign hidentifier ih =>
    rw [List.cons_append, identifiersFrom]
    split
    · next other h => exact absurd h (hassign other)
    · next other h => exact absurd h (hidentifier other)
    · exact ih

/-- No name is found twice. -/
theorem nodup_identifiersFrom (h : listed.Nodup) : (identifiersFrom assigned listed ts).Nodup := by
  fun_induction identifiersFrom assigned listed ts with
  | case1 assigned listed => exact h
  | case2 assigned listed t rest other hkind ih => exact ih h
  | case3 assigned listed t rest other hkind hold ih => exact ih h
  | case4 assigned listed t rest other hkind hnew ih =>
    have hlisted : other ∉ listed := by simp_all
    exact ih (List.nodup_append.mpr ⟨h, by simp, by grind⟩)
  | case5 assigned listed t rest hassign hidentifier ih => exact ih h

namespace Program

variable {p : Program}

/-- The names of a program are those that it reads before it assigns them. -/
theorem mem_identifiers_iff : name ∈ p.identifiers ↔ Reads name p.tokens := by
  simp [identifiers, mem_identifiersFrom_iff]

/-- The first of the names that is missing is read by a token before which neither it nor any
other missing name is read. -/
theorem exists_first_missing {missing : String → Bool}
    (h : p.identifiers.find? missing = some name) :
    ∃ before t after, p.tokens = before ++ t :: after ∧ t.kind = .identifier name ∧
      (∀ s ∈ before, s.kind ≠ .identifier name ∧ s.kind ≠ .assign name) ∧
      ∀ other, missing other = true → ¬Reads other before := by
  obtain ⟨before, t, after, htokens, ht, hbefore⟩ :=
    (mem_identifiers_iff.mp (List.mem_of_find?_eq_some h)).exists_split
  refine ⟨before, t, after, htokens, ht, hbefore, fun other hmissing hread => ?_⟩
  -- what is read before this token is found before this name
  obtain ⟨later, hlater⟩ : identifiersFrom [] [] before <+: p.identifiers := by
    rw [identifiers, htokens]
    exact isPrefix_identifiersFrom_append (t :: after)
  have hother : other ∈ identifiersFrom [] [] before := by
    simp [mem_identifiersFrom_iff, hread]
  obtain ⟨first, hfirst⟩ :=
    Option.isSome_iff_exists.mp (List.find?_isSome.mpr ⟨other, hother, hmissing⟩)
  rw [← hlater, List.find?_append, hfirst, Option.some_or] at h
  obtain rfl := Option.some.inj h
  obtain hlisted | ⟨-, hreads⟩ :=
    mem_identifiersFrom_iff.mp (List.mem_of_find?_eq_some hfirst)
  · cases hlisted
  · exact not_reads_of_forall (fun s hs => (hbefore s hs).1) hreads

end Program

/-! ### What a run sees of a resolver -/

/-- Some names do not stand for anything any more. -/
def Resolver.without (resolve : Resolver) (missing : String → Bool) : Resolver := fun name =>
  if missing name then none else resolve name

theorem Resolver.without_of_missing {missing : String → Bool} (h : missing name = true)
    (resolve : Resolver) : resolve.without missing name = none := by
  rw [without, if_pos h]

theorem Resolver.without_of_not_missing {missing : String → Bool} (h : missing name = false)
    (resolve : Resolver) : resolve.without missing name = resolve name := by
  rw [without, h]
  rfl

namespace Machine

variable {resolve resolve' : Resolver} {x : ComplexNumber Float} {m m' : Machine}

/-- A step depends on what the name that it reads stands for. -/
theorem step_congr
    (h : ∀ name, t.kind = .identifier name → m.lookUp resolve name = m.lookUp resolve' name) :
    m.step resolve x t = m.step resolve' x t := by
  obtain ⟨kind, line⟩ := t
  cases kind with
  | identifier name =>
    simp only [step]
    rw [h name rfl]
  | number z => rfl
  | operation op => rfl
  | foreign symbol => rfl
  | assign name => rfl
  | input => rfl
  | blank => rfl

/-- A step does not change what a name stands for that it does not assign. -/
theorem lookUp_step (h : m.step resolve x t = .ok m') (hname : t.kind ≠ .assign name)
    (known : Resolver) : m'.lookUp known name = m.lookUp known name := by
  rcases assigned_step h with ⟨-, hassigned⟩ | ⟨other, z, hkind, hassigned⟩
  · rw [lookUp, lookUp, hassigned]
  · have hother : name ≠ other := fun hsame => hname (by rw [hkind, hsame])
    rw [lookUp, lookUp, hassigned, List.lookup_cons, beq_false_of_ne hother]

/-- What a step assigns does not depend on the resolver. -/
theorem lookUp_step_assign (h : m.step resolve x t = .ok m') (hname : t.kind = .assign name) :
    ∃ z, ∀ known, m'.lookUp known name = some z := by
  rcases assigned_step h with ⟨hother, -⟩ | ⟨other, z, hkind, hassigned⟩
  · exact absurd hname (hother name)
  · obtain rfl := Token.Kind.assign.inj (hname.symm.trans hkind)
    refine ⟨z, fun known => ?_⟩
    rw [lookUp, hassigned, List.lookup_cons_self, Option.some_or]

/-- A run does not change what a name stands for that it does not assign. -/
theorem lookUp_run (h : m.run resolve x ts = .ok m') (hname : ∀ t ∈ ts, t.kind ≠ .assign name)
    (known : Resolver) : m'.lookUp known name = m.lookUp known name := by
  induction ts generalizing m with
  | nil =>
    obtain rfl := Except.ok.inj h
    rfl
  | cons t rest ih =>
    obtain ⟨m₁, hstep, hrest⟩ := run_cons_eq_ok h
    obtain ⟨ht, hname⟩ := List.forall_mem_cons.mp hname
    rw [ih hrest hname, lookUp_step hstep ht]

/-- **A run depends on what the names that it reads stand for.** -/
theorem run_congr
    (h : ∀ name, Reads name ts → m.lookUp resolve name = m.lookUp resolve' name) :
    m.run resolve x ts = m.run resolve' x ts := by
  induction ts generalizing m with
  | nil => rfl
  | cons t rest ih =>
    have hstep : m.step resolve x t = m.step resolve' x t :=
      step_congr fun name hname => h name (.here hname)
    rw [run, run, hstep]
    cases hm : m.step resolve' x t with
    | error e => rfl
    | ok m₁ =>
      refine ih fun name hread => ?_
      by_cases hassign : t.kind = .assign name
      · obtain ⟨z, hz⟩ := lookUp_step_assign hm hassign
        rw [hz, hz]
      · rw [lookUp_step hm hassign, lookUp_step hm hassign]
        exact h name (.later hassign hread)

/-- A name stops a step only if the step reads it and it stands for nothing. -/
theorem identifier_of_step_eq_error {line : Int}
    (h : m.step resolve x t = .error (.unknownIdentifier name line)) :
    t.kind = .identifier name ∧ m.lookUp resolve name = none := by
  obtain ⟨kind, line'⟩ := t
  obtain ⟨⟨items⟩, assigned⟩ := m
  cases kind with
  | identifier other =>
    simp only [step] at h
    split at h
    · next hnone =>
      obtain ⟨rfl, -⟩ := EvalError.unknownIdentifier.inj (Except.error.inj h)
      exact ⟨rfl, hnone⟩
    · cases h
  | assign other => cases items <;> cases h
  | operation op =>
    cases op with
    | unary f => cases items <;> cases h
    | binary f => rcases items with _ | ⟨w, _ | ⟨z, rest⟩⟩ <;> cases h
  | number z => cases h
  | input => cases h
  | foreign symbol => cases h
  | blank => cases h

/-- A name that stops a run is read, and stands for nothing. -/
theorem reads_of_run_eq_error {line : Int}
    (h : m.run resolve x ts = .error (.unknownIdentifier name line)) :
    Reads name ts ∧ m.lookUp resolve name = none := by
  induction ts generalizing m with
  | nil => cases h
  | cons t rest ih =>
    rw [run] at h
    cases hm : m.step resolve x t with
    | error e =>
      rw [hm] at h
      obtain rfl := Except.error.inj h
      obtain ⟨hkind, hnone⟩ := identifier_of_step_eq_error hm
      exact ⟨.here hkind, hnone⟩
    | ok m₁ =>
      rw [hm] at h
      obtain ⟨hread, hnone⟩ := ih h
      by_cases hassign : t.kind = .assign name
      · -- what was assigned stands for something
        obtain ⟨z, hz⟩ := lookUp_step_assign hm hassign
        cases (hz resolve).symm.trans hnone
      · exact ⟨.later hassign hread, (lookUp_step hm hassign resolve).symm.trans hnone⟩

/-- A machine stops at a name that stands for nothing. -/
theorem run_cons_of_unknown (hkind : t.kind = .identifier name)
    (hnone : m.lookUp resolve name = none) :
    m.run resolve x (t :: rest) = .error (.unknownIdentifier name t.line) := by
  rw [run, step, hkind]
  dsimp only
  rw [hnone]

end Machine

/-! ### Whole programs -/

namespace Program

variable {p : Program} {resolve resolve' : Resolver} {x : ComplexNumber Float}

theorem start_lookUp (resolve : Resolver) (name : String) :
    Machine.start.lookUp resolve name = resolve name := rfl

/-- The values of a program depend on what its names stand for. -/
theorem evaluate_congr (h : ∀ name ∈ p.identifiers, resolve name = resolve' name) :
    p.evaluate resolve x = p.evaluate resolve' x := by
  have hrun : Machine.start.run resolve x p.tokens = Machine.start.run resolve' x p.tokens :=
    Machine.run_congr fun name hread => h name (mem_identifiers_iff.mpr hread)
  rw [evaluate, evaluate, hrun]

/-- A name that stops a program is one of its names, and stands for nothing. -/
theorem mem_identifiers_of_evaluate_eq_error {line : Int}
    (h : p.evaluate resolve x = .error (.unknownIdentifier name line)) :
    name ∈ p.identifiers ∧ resolve name = none := by
  rw [evaluate] at h
  cases hrun : Machine.start.run resolve x p.tokens with
  | ok m =>
    rw [hrun] at h
    cases h
  | error e =>
    rw [hrun] at h
    obtain rfl := Except.error.inj h
    obtain ⟨hread, hnone⟩ := Machine.reads_of_run_eq_error hrun
    exact ⟨mem_identifiers_iff.mpr hread, hnone⟩

/-- Where names are missing, the token that reads the first of them stops the program. -/
theorem evaluate_without {values : List (ComplexNumber Float)} {missing : String → Bool}
    (h : p.evaluate resolve x = .ok values) {before after : List Token}
    (htokens : p.tokens = before ++ t :: after) (hkind : t.kind = .identifier name)
    (hmissing : missing name = true) (hassign : ∀ s ∈ before, s.kind ≠ .assign name)
    (hothers : ∀ other, missing other = true → ¬Reads other before) :
    p.evaluate (resolve.without missing) x = .error (.unknownIdentifier name t.line) := by
  have hbefore : Machine.start.run (resolve.without missing) x before =
      Machine.start.run resolve x before := by
    refine Machine.run_congr fun other hread => ?_
    have hknown : missing other = false :=
      eq_false_of_ne_true fun hmissing => hothers other hmissing hread
    exact Resolver.without_of_not_missing hknown resolve
  rw [evaluate, htokens] at h ⊢
  cases hrun : Machine.start.run resolve x before with
  | error e =>
    rw [Machine.run_append_of_error hrun] at h
    cases h
  | ok m =>
    have hnone : m.lookUp (resolve.without missing) name = none := by
      rw [Machine.lookUp_run hrun hassign, start_lookUp, Resolver.without_of_missing hmissing]
    rw [Machine.run_append_of_ok (hbefore.trans hrun), Machine.run_cons_of_unknown hkind hnone]
    rfl

/-- **The names of a program are its footprint.**  They are found once each.  What other names
stand for does not matter; if all of them stand for something, no name stops the program; and
if a program leaves values, it is stopped without some of its names, by the first in the list
that is missing, at the first token that reads it, before which it is not assigned. -/
theorem identifiers_footprint (p : Program) :
    p.identifiers.Nodup ∧
    (∀ resolve resolve' : Resolver, (∀ name ∈ p.identifiers, resolve name = resolve' name) →
      ∀ x, p.evaluate resolve x = p.evaluate resolve' x) ∧
    (∀ resolve : Resolver, (∀ name ∈ p.identifiers, (resolve name).isSome) →
      ∀ x name line, p.evaluate resolve x ≠ .error (.unknownIdentifier name line)) ∧
    ∀ (resolve : Resolver) (x : ComplexNumber Float) (values : List (ComplexNumber Float)),
      p.evaluate resolve x = .ok values →
      ∀ missing : String → Bool, (∃ name ∈ p.identifiers, missing name = true) →
        ∃ name before t after, p.identifiers.find? missing = some name ∧
          p.tokens = before ++ t :: after ∧ t.kind = .identifier name ∧
          (∀ s ∈ before, s.kind ≠ .identifier name ∧ s.kind ≠ .assign name) ∧
          p.evaluate (resolve.without missing) x = .error (.unknownIdentifier name t.line) := by
  refine ⟨nodup_identifiersFrom List.nodup_nil, fun _ _ h x => evaluate_congr h, ?_, ?_⟩
  · intro resolve hknown x name line herror
    obtain ⟨hmem, hnone⟩ := mem_identifiers_of_evaluate_eq_error herror
    have hsome := hknown name hmem
    rw [hnone] at hsome
    cases hsome
  · rintro resolve x values hvalues missing ⟨other, hother, hmissing⟩
    obtain ⟨name, hname⟩ :=
      Option.isSome_iff_exists.mp (List.find?_isSome.mpr ⟨other, hother, hmissing⟩)
    obtain ⟨before, t, after, htokens, hkind, hbefore, hothers⟩ := exists_first_missing hname
    exact ⟨name, before, t, after, hname, htokens, hkind, hbefore,
      evaluate_without hvalues htokens hkind (List.find?_some hname)
        (fun s hs => (hbefore s hs).2) hothers⟩

/-- The name `b` is assigned before it is read, so it may stand for anything.  If only `a` is
known, the program stops at `c`, which is the first missing name in the list. -/
theorem identifiers_footprint_shadowed :
    let p : Program := ⟨[⟨.identifier "a", 1⟩, ⟨.assign "b", 2⟩, ⟨.identifier "b", 3⟩,
      ⟨.identifier "c", 3⟩, ⟨.operation (.binary .add), 3⟩, ⟨.identifier "a", 4⟩,
      ⟨.identifier "d", 4⟩, ⟨.operation (.binary .mul), 4⟩], "a\n= b\nb+c\na*d"⟩
    let resolve : Resolver := fun _ => some ⟨1, 0⟩
    p.identifiers = ["a", "c", "d"] ∧ p.identifiers.Nodup ∧
      p.evaluate resolve ⟨0, 0⟩ = .ok [⟨2, 0⟩, ⟨1, 0⟩] ∧
      p.evaluate (resolve.without (· == "b")) ⟨0, 0⟩ = p.evaluate resolve ⟨0, 0⟩ ∧
      p.evaluate (resolve.without (· != "a")) ⟨0, 0⟩ = .error (.unknownIdentifier "c" 3) ∧
      ∀ name line, p.evaluate resolve ⟨0, 0⟩ ≠ .error (.unknownIdentifier name line) := by
  intro p resolve
  have hnames : p.identifiers = ["a", "c", "d"] := by decide
  have hvalues : p.evaluate resolve ⟨0, 0⟩ = .ok [⟨2, 0⟩, ⟨1, 0⟩] := by decide +kernel
  obtain ⟨hnodup, hagree, hknown, hmissing⟩ := identifiers_footprint p
  refine ⟨hnames, hnodup, hvalues, hagree _ _ ?_ _, ?_, hknown resolve (fun _ _ => rfl) _⟩
  · rw [hnames]
    decide
  · obtain ⟨name, before, t, after, hname, htokens, hkind, -, herror⟩ :=
      hmissing resolve ⟨0, 0⟩ _ hvalues (· != "a") ⟨"c", by rw [hnames]; decide, by decide⟩
    obtain rfl : "c" = name := by
      rw [hnames] at hname
      exact Option.some.inj hname
    have hmem : t ∈ p.tokens := htokens ▸ List.mem_append_right before List.mem_cons_self
    have hlines : ∀ t ∈ p.tokens, t.kind = .identifier "c" → t.line = 3 := by decide
    rw [herror, hlines t hmem hkind]

end Program

end Argand
