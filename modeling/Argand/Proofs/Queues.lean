import Argand.Proofs.Readers
import Argand.Registry
import Mathlib.Logic.Function.Basic

/-!
# A queue for each name

The variables of one name form a queue: a new one joins at the end, only the one in front is
seen and can be changed, and when it is taken out the next comes to light.  Here a registry is
compared with queues that know nothing of each other; the order of the registry as a whole is
looked at beside them.

## Main definitions

* `Registry.queue r name` — the variables of a name, the oldest first.
* `Registry.attempt`, `Registry.attemptAll` — edits of which each may fail; one that fails
  leaves everything as it was.
* `Edit.ByName` — the edits that find their variable by its name.
* `VariableQueues` — a queue for each name; `VariableQueues.edit`, `VariableQueues.editAll` say
  what edits do to queues, what they answer and what they report.
* `Registry.FirstInFirstOut r log` — what lookups see, and what the next edit does to the
  registry as a whole and to the log.

## Main results

* `Registry.attempt_of_added`, `Registry.attempt_of_unbound`, `Registry.attempt_of_oldest` — what
  an edit does to the whole registry.
* `Registry.attempt_follows_edit` — **an edit of a registry is an edit of its queues.**
* `Registry.attemptAll_follows_editAll` — the same for any number of edits.
* `Registry.behaves_as_queues` — after any edits, lookups see the front of each queue, and the
  next edit leaves all but one variable as they were and where they were.
-/

namespace Argand

open Registry (Edit)

/-! ### The variables of a name -/

namespace Registry

variable {r : Registry} {log : Log} {name : String} {v : Variable} {rest : List Variable}

/-- The variables of a name, the oldest first. -/
def queue (r : Registry) (name : String) : List Variable := r.entries.filter (·.name == name)

/-- A lookup sees the oldest variable of the name. -/
theorem find?_eq_head? (r : Registry) (name : String) : r.find? name = (r.queue name).head? :=
  List.head?_filter.symm

theorem resolve_eq (r : Registry) (name : String) :
    r.resolve name = (r.queue name).head?.map (·.value) := by
  rw [resolve, find?_eq_head?]

theorem get_eq (r : Registry) (name : String) :
    r.get name = match r.queue name with
      | [] => .error (.unbound name)
      | v :: _ => .ok v.value := by
  rw [get, resolve_eq]
  cases r.queue name <;> rfl

theorem contains_eq (r : Registry) (name : String) :
    r.contains name = !(r.queue name).isEmpty := by
  rw [contains, find?_eq_head?]
  cases r.queue name <;> rfl

theorem queue_eq_nil_iff : r.queue name = [] ↔ ∀ v ∈ r.entries, v.name ≠ name := by
  simp [queue]

/-- The oldest variable of a name stands behind variables of other names only. -/
theorem exists_oldest (h : r.queue name = v :: rest) :
    ∃ before after, r.entries = before ++ v :: after ∧ (∀ w ∈ before, w.name ≠ name) ∧
      v.name = name := by
  obtain ⟨before, after, hentries, hbefore, hv, -⟩ := List.filter_eq_cons_iff.mp h
  exact ⟨before, after, hentries, fun w hw heq => hbefore w hw (beq_iff_eq.mpr heq),
    beq_iff_eq.mp hv⟩

/-- A queue has the variables of its name in the order of the registry. -/
theorem queue_append {before after : List Variable} :
    queue ⟨before ++ after⟩ name = queue ⟨before⟩ name ++ queue ⟨after⟩ name :=
  List.filter_append before after

theorem queue_cons {after : List Variable} :
    queue ⟨v :: after⟩ name =
      if v.name = name then v :: queue ⟨after⟩ name else queue ⟨after⟩ name := by
  by_cases h : v.name = name <;> simp [queue, h]

end Registry

/-! ### The first variable of a name -/

variable {name : String} {v : Variable} {before after : List Variable}

theorem modifyFirst_of_unbound {l : List Variable} (h : ∀ w ∈ l, w.name ≠ name)
    (change : Variable → Except VariableError Variable) :
    modifyFirst name change l = .error (.unbound name) := by
  induction l with
  | nil => rfl
  | cons w l ih =>
    rw [modifyFirst, if_neg (h w List.mem_cons_self),
      ih fun u hu => h u (List.mem_cons_of_mem w hu)]
    rfl

/-- A change of the oldest variable leaves all others where they are. -/
theorem modifyFirst_append (hbefore : ∀ w ∈ before, w.name ≠ name) (hv : v.name = name)
    (change : Variable → Except VariableError Variable) :
    modifyFirst name change (before ++ v :: after) =
      (change v).map fun w => before ++ w :: after := by
  induction before with
  | nil => exact if_pos hv
  | cons u before ih =>
    rw [List.cons_append, modifyFirst, if_neg (hbefore u List.mem_cons_self),
      ih fun w hw => hbefore w (List.mem_cons_of_mem u hw)]
    cases change v <;> rfl

theorem removeFirst_of_unbound {l : List Variable} (h : ∀ w ∈ l, w.name ≠ name) :
    removeFirst name l = .error (.unbound name) := by
  induction l with
  | nil => rfl
  | cons w l ih =>
    rw [removeFirst, if_neg (h w List.mem_cons_self),
      ih fun u hu => h u (List.mem_cons_of_mem w hu)]
    rfl

/-- Taking out the oldest variable leaves all others in their order. -/
theorem removeFirst_append (hbefore : ∀ w ∈ before, w.name ≠ name) (hv : v.name = name) :
    removeFirst name (before ++ v :: after) = .ok (v, before ++ after) := by
  induction before with
  | nil => exact if_pos hv
  | cons u before ih =>
    rw [List.cons_append, removeFirst, if_neg (hbefore u List.mem_cons_self),
      ih fun w hw => hbefore w (List.mem_cons_of_mem u hw)]
    rfl

/-! ### Edits that may fail -/

namespace Registry

variable {r : Registry} {log : Log} {name : String} {v : Variable} {rest : List Variable}

/-- What an edit answers, and the registry and the log after it.  If it fails, they are as they
were before. -/
def attempt (s : Registry × Log) (e : Edit) :
    Except VariableError (Option Variable) × Registry × Log :=
  match s.1.edit s.2 e with
  | .error err => (.error err, s)
  | .ok (found?, r, log) => (.ok found?, r, log)

/-- The answers of edits one after the other, and the registry and the log after them. -/
def attemptAll (s : Registry × Log) :
    List Edit → List (Except VariableError (Option Variable)) × Registry × Log
  | [] => ([], s)
  | e :: rest =>
    let (answer, t) := attempt s e
    let (answers, u) := attemptAll t rest
    (answer :: answers, u)

/-- The edits that find their variable by its name, or need not find any. -/
def Edit.ByName : Edit → Prop
  | .advanceAt _ => False
  | .setFractionAt _ _ => False
  | _ => True

/-- What is logged when a name is used again. -/
def shadowText (name : String) : String :=
  "Variable '" ++ name ++ "' already exists, the new one is shadowed."

/-- A new variable stands behind all others; a warning says if it is shadowed. -/
theorem attempt_of_added {e : Edit} (h : e.added? = some v) (r : Registry) (log : Log) :
    attempt (r, log) e = (.ok (some v), ⟨r.entries ++ [v]⟩,
      if (r.queue v.name).isEmpty then log else log.push ⟨.warning, shadowText v.name⟩) := by
  rw [attempt, edit_of_added h]
  dsimp only
  rw [addLogged, shadowWarning?, contains_eq]
  cases (r.queue v.name).isEmpty <;> rfl

/-- What goes by a name that no variable has fails and leaves everything as it was. -/
theorem attempt_of_unbound (h : r.queue name = []) (log : Log) :
    (∀ z, attempt (r, log) (.setValue name z) = (.error (.unbound name), r, log)) ∧
    (∀ fraction, attempt (r, log) (.setFraction name fraction) =
      (.error (.unbound name), r, log)) ∧
    attempt (r, log) (.remove name) = (.error (.unbound name), r, log) := by
  have hnone := queue_eq_nil_iff.mp h
  refine ⟨fun z => ?_, fun fraction => ?_, ?_⟩
  · simp only [attempt, edit, setValue, modify, modifyFirst_of_unbound hnone, Except.map]
  · simp only [attempt, edit, setFraction, modify, modifyFirst_of_unbound hnone, Except.map]
  · simp only [attempt, edit, remove, removeFirst_of_unbound hnone, Except.map]

/-- What goes by a name finds its oldest variable, and leaves all others where they are. -/
theorem attempt_of_oldest (hentries : r.entries = before ++ v :: after)
    (hbefore : ∀ w ∈ before, w.name ≠ name) (hv : v.name = name) (log : Log) :
    (∀ z, attempt (r, log) (.setValue name z) =
      (.ok none, ⟨before ++ { v with value := z } :: after⟩, log)) ∧
    (∀ fraction, attempt (r, log) (.setFraction name fraction) =
      if v.kind = .constant then (.error (.noSlider name), r, log)
      else (.ok none, ⟨before ++ v.withFraction fraction :: after⟩, log)) ∧
    attempt (r, log) (.remove name) = (.ok (some v), ⟨before ++ after⟩, log) := by
  refine ⟨fun z => ?_, fun fraction => ?_, ?_⟩
  · simp only [attempt, edit, setValue, modify, hentries, modifyFirst_append hbefore hv, Except.map]
  · by_cases hkind : v.kind = .constant
    · simp only [attempt, edit, setFraction, modify, hentries,
        modifyFirst_append hbefore hv, Variable.setFraction, if_pos hkind, hv, Except.map]
    · simp only [attempt, edit, setFraction, modify, hentries,
        modifyFirst_append hbefore hv, Variable.setFraction, if_neg hkind, Except.map]
  · simp only [attempt, edit, remove, hentries, removeFirst_append hbefore hv, Except.map]

end Registry

/-! ### Queues -/

/-- For each name its variables, the oldest first. -/
abbrev VariableQueues := String → List Variable

namespace VariableQueues

variable (q : VariableQueues)

/-- No variables at all. -/
def empty : VariableQueues := fun _ => []

/-- The two constants, each alone in its queue. -/
def standard : VariableQueues := fun name =>
  if name = "pi" then [{ name := "pi", value := .ofReal Binary64.pi }]
  else if name = "e" then [{ name := "e", value := .ofReal Binary64.euler }]
  else []

/-- A variable joins the queue of its name; a warning says if it is not the first there. -/
def enqueue (v : Variable) :
    Except VariableError (Option Variable) × VariableQueues × List Message :=
  (.ok (some v), Function.update q v.name (q v.name ++ [v]),
    if (q v.name).isEmpty then [] else [⟨.warning, Registry.shadowText v.name⟩])

/-- The variable at the front of a queue is changed, unless the change fails. -/
def changeFront (name : String) (change : Variable → Except VariableError Variable) :
    Except VariableError (Option Variable) × VariableQueues × List Message :=
  match q name with
  | [] => (.error (.unbound name), q, [])
  | v :: rest =>
    match change v with
    | .error e => (.error e, q, [])
    | .ok w => (.ok none, Function.update q name (w :: rest), [])

/-- The variable at the front of a queue leaves it. -/
def dequeue (name : String) :
    Except VariableError (Option Variable) × VariableQueues × List Message :=
  match q name with
  | [] => (.error (.unbound name), q, [])
  | v :: rest => (.ok (some v), Function.update q name rest, [])

/-- What an edit answers, the queues after it, and what it reports.  Queues know no positions:
edits that go by a position are not described. -/
def edit : Edit → Except VariableError (Option Variable) × VariableQueues × List Message
  | .add v => q.enqueue v
  | .addConstant name value => q.enqueue { name, value }
  | .addRange name minimum maximum fraction =>
    q.enqueue
      { name, kind := .range, value := .ofReal (minimum + (maximum - minimum) * fraction),
        minimum, maximum }
  | .addTime name minimum maximum step =>
    q.enqueue { name, kind := .time, value := .ofReal minimum, minimum, maximum, step }
  | .setValue name z => q.changeFront name fun v => .ok { v with value := z }
  | .setFraction name fraction => q.changeFront name (·.setFraction fraction)
  | .remove name => q.dequeue name
  | .tick => (.ok none, fun name => (q name).map (·.advance), [])
  | .reset => (.ok none, standard, [])
  | .advanceAt _ | .setFractionAt _ _ => (.ok none, q, [])

/-- The answers of edits one after the other, the queues after them, and all reports. -/
def editAll (q : VariableQueues) :
    List Edit → List (Except VariableError (Option Variable)) × VariableQueues × List Message
  | [] => ([], q, [])
  | e :: rest =>
    let (answer, q', reports) := q.edit e
    let (answers, q'', moreReports) := editAll q' rest
    (answer :: answers, q'', reports ++ moreReports)

end VariableQueues

namespace Registry

variable {r : Registry} {log : Log} {name : String} {v : Variable} {rest : List Variable}

/-! ### What edits do to the queues -/

/-- A new variable joins the queue of its name and no other. -/
theorem queue_concat (r : Registry) (v : Variable) :
    queue ⟨r.entries ++ [v]⟩ = Function.update r.queue v.name (r.queue v.name ++ [v]) := by
  funext name
  rw [queue_append, queue_cons, Function.update_apply]
  by_cases h : v.name = name
  · subst h
    rw [if_pos rfl, if_pos rfl]
    rfl
  · rw [if_neg h, if_neg (Ne.symm h)]
    exact List.append_nil _

/-- What stands in the place of the oldest variable of a name, or in none, stands at the front
of its queue and of no other. -/
theorem queue_replace (hentries : r.entries = before ++ v :: after)
    (hbefore : ∀ w ∈ before, w.name ≠ name) (hv : v.name = name) (h : r.queue name = v :: rest)
    (ws : List Variable) (hws : ∀ w ∈ ws, w.name = name) :
    queue ⟨before ++ ws ++ after⟩ = Function.update r.queue name (ws ++ rest) := by
  have hnone : queue ⟨before⟩ name = [] := queue_eq_nil_iff.mpr hbefore
  obtain ⟨entries⟩ := r
  obtain rfl : entries = before ++ v :: after := hentries
  funext other
  rw [queue_append, queue_append, Function.update_apply]
  split
  · next hsame =>
    subst hsame
    rw [queue_append, hnone, queue_cons, if_pos hv] at h
    have hall : queue ⟨ws⟩ other = ws :=
      List.filter_eq_self.mpr fun w hw => beq_iff_eq.mpr (hws w hw)
    rw [hnone, hall, (List.cons.inj h).2]
    rfl
  · next hother =>
    have hnoWs : queue ⟨ws⟩ other = [] :=
      queue_eq_nil_iff.mpr fun w hw heq => hother (heq.symm.trans (hws w hw))
    rw [queue_append, queue_cons, if_neg fun heq => hother (heq.symm.trans hv), hnoWs,
      List.append_nil]

/-- Time moves every variable of a queue, shadowed ones too. -/
theorem queue_tick (r : Registry) (name : String) :
    r.tick.queue name = (r.queue name).map (·.advance) := by
  rw [queue, tick, List.filter_map]
  have hname : ((fun v : Variable => v.name == name) ∘ fun v : Variable => v.advance) =
      fun v => v.name == name := by
    funext v
    exact congrArg (· == name) v.name_advance
  rw [hname]
  rfl

theorem queue_standard : standard.queue = VariableQueues.standard := by
  funext name
  rw [standard, queue_cons, queue_cons, VariableQueues.standard]
  by_cases hpi : "pi" = name
  · subst hpi
    rfl
  · by_cases he : "e" = name
    · subst he
      rfl
    · rw [if_neg hpi, if_neg he, if_neg (Ne.symm hpi), if_neg (Ne.symm he)]
      rfl

/-- The variable in the place of the oldest one of a name comes to the front of its queue. -/
theorem queue_change (hentries : r.entries = before ++ v :: after)
    (hbefore : ∀ w ∈ before, w.name ≠ name) (hv : v.name = name) (h : r.queue name = v :: rest)
    {w : Variable} (hw : w.name = name) :
    queue ⟨before ++ w :: after⟩ = Function.update r.queue name (w :: rest) := by
  have hchange := queue_replace hentries hbefore hv h [w]
    (List.forall_mem_singleton.mpr hw)
  rwa [List.append_assoc] at hchange

/-- Without the oldest variable of a name its queue is that of the others. -/
theorem queue_removed (hentries : r.entries = before ++ v :: after)
    (hbefore : ∀ w ∈ before, w.name ≠ name) (hv : v.name = name) (h : r.queue name = v :: rest) :
    queue ⟨before ++ after⟩ = Function.update r.queue name rest := by
  have hremoved := queue_replace hentries hbefore hv h [] (by simp)
  rwa [List.append_nil] at hremoved

/-! ### Edits of registries and of queues -/

/-- What an edit of the registry comes to is what it comes to for the queues. -/
def FollowsQueues (r : Registry) (log : Log) (e : Edit) : Prop :=
  ∃ r' log', attempt (r, log) e = ((VariableQueues.edit r.queue e).1, r', log') ∧
    r'.queue = (VariableQueues.edit r.queue e).2.1 ∧
    log' = (VariableQueues.edit r.queue e).2.2.foldl Log.push log

theorem followsQueues_of_added {e : Edit} (h : e.added? = some v)
    (hedit : VariableQueues.edit r.queue e = VariableQueues.enqueue r.queue v) (log : Log) :
    r.FollowsQueues log e := by
  rw [FollowsQueues, hedit]
  refine ⟨_, _, attempt_of_added h r log, queue_concat r v, ?_⟩
  rw [VariableQueues.enqueue]
  cases (r.queue v.name).isEmpty <;> rfl

/-- **An edit of a registry is an edit of its queues.** -/
theorem attempt_follows_edit (r : Registry) (log : Log) {e : Edit} (he : e.ByName) :
    r.FollowsQueues log e := by
  cases e with
  | add v => exact followsQueues_of_added rfl rfl log
  | addConstant name value => exact followsQueues_of_added rfl rfl log
  | addRange name minimum maximum fraction => exact followsQueues_of_added rfl rfl log
  | addTime name minimum maximum step => exact followsQueues_of_added rfl rfl log
  | setValue name z =>
    rw [FollowsQueues, VariableQueues.edit, VariableQueues.changeFront]
    cases hqueue : r.queue name with
    | nil => exact ⟨_, _, (attempt_of_unbound hqueue log).1 z, rfl, rfl⟩
    | cons v rest =>
      obtain ⟨before, after, hentries, hbefore, hv⟩ := exists_oldest hqueue
      exact ⟨_, _, (attempt_of_oldest hentries hbefore hv log).1 z,
        queue_change hentries hbefore hv hqueue hv, rfl⟩
  | setFraction name fraction =>
    rw [FollowsQueues, VariableQueues.edit, VariableQueues.changeFront]
    cases hqueue : r.queue name with
    | nil => exact ⟨_, _, (attempt_of_unbound hqueue log).2.1 fraction, rfl, rfl⟩
    | cons v rest =>
      obtain ⟨before, after, hentries, hbefore, hv⟩ := exists_oldest hqueue
      have hattempt := (attempt_of_oldest hentries hbefore hv log).2.1 fraction
      dsimp only
      by_cases hkind : v.kind = .constant
      · rw [Variable.setFraction, if_pos hkind, hv]
        rw [if_pos hkind] at hattempt
        exact ⟨_, _, hattempt, rfl, rfl⟩
      · rw [Variable.setFraction, if_neg hkind]
        rw [if_neg hkind] at hattempt
        exact ⟨_, _, hattempt, queue_change hentries hbefore hv hqueue hv, rfl⟩
  | remove name =>
    rw [FollowsQueues, VariableQueues.edit, VariableQueues.dequeue]
    cases hqueue : r.queue name with
    | nil => exact ⟨_, _, (attempt_of_unbound hqueue log).2.2, rfl, rfl⟩
    | cons v rest =>
      obtain ⟨before, after, hentries, hbefore, hv⟩ := exists_oldest hqueue
      exact ⟨_, _, (attempt_of_oldest hentries hbefore hv log).2.2,
        queue_removed hentries hbefore hv hqueue, rfl⟩
  | tick => exact ⟨_, _, rfl, funext r.queue_tick, rfl⟩
  | reset => exact ⟨_, _, rfl, queue_standard, rfl⟩
  | advanceAt i => exact he.elim
  | setFractionAt i fraction => exact he.elim

/-- **Any number of edits of a registry are edits of its queues.** -/
theorem attemptAll_follows_editAll (r : Registry) (log : Log) {edits : List Edit}
    (h : ∀ e ∈ edits, e.ByName) :
    ∃ r' log', attemptAll (r, log) edits = ((VariableQueues.editAll r.queue edits).1, r', log') ∧
      r'.queue = (VariableQueues.editAll r.queue edits).2.1 ∧
      log' = (VariableQueues.editAll r.queue edits).2.2.foldl Log.push log := by
  induction edits generalizing r log with
  | nil => exact ⟨r, log, rfl, rfl, rfl⟩
  | cons e edits ih =>
    obtain ⟨r', log', hattempt, hqueue, hlog⟩ :=
      attempt_follows_edit r log (h e List.mem_cons_self)
    obtain ⟨r'', log'', hall, hqueues, hlogs⟩ :=
      ih r' log' fun d hd => h d (List.mem_cons_of_mem e hd)
    rw [hqueue] at hall hqueues hlogs
    refine ⟨r'', log'', ?_, hqueues, ?_⟩
    · rw [attemptAll, hattempt]
      dsimp only
      rw [hall]
      rfl
    · rw [hlogs, hlog, VariableQueues.editAll, List.foldl_append]

/-! ### Behaving as queues -/

/-- What lookups see in a registry, and what the next edit does to it and to the log. -/
structure FirstInFirstOut (r : Registry) (log : Log) : Prop where
  /-- Lookups see the oldest variable of a name. -/
  lookup (name : String) :
    r.resolve name = (r.queue name).head?.map (·.value) ∧
    (r.get name = match r.queue name with
      | [] => .error (.unbound name)
      | v :: _ => .ok v.value) ∧
    r.contains name = !(r.queue name).isEmpty
  /-- A new variable is the last of all.  No name that has a value gets another, and there is
  one warning exactly if the name of the variable has one. -/
  added (e : Edit) (v : Variable) (h : e.added? = some v) :
    attempt (r, log) e = (.ok (some v), ⟨r.entries ++ [v]⟩,
      if r.contains v.name then
        log.push ⟨.warning,
          "Variable '" ++ v.name ++ "' already exists, the new one is shadowed."⟩
      else log) ∧
    ∀ name z, r.resolve name = some z → resolve ⟨r.entries ++ [v]⟩ name = some z
  /-- A name that no variable has can be neither changed nor taken out. -/
  unbound (name : String) (h : r.contains name = false) :
    (∀ z, attempt (r, log) (.setValue name z) = (.error (.unbound name), r, log)) ∧
    (∀ fraction, attempt (r, log) (.setFraction name fraction) =
      (.error (.unbound name), r, log)) ∧
    attempt (r, log) (.remove name) = (.error (.unbound name), r, log)
  /-- The oldest variable of a name is changed in its value only, or taken out so that the next
  oldest comes to the front.  All others stay as they are and where they are. -/
  oldest (name : String) (v : Variable) (rest : List Variable) (h : r.queue name = v :: rest) :
    ∃ before after, r.entries = before ++ v :: after ∧ (∀ w ∈ before, w.name ≠ name) ∧
      v.name = name ∧
      (∀ z, attempt (r, log) (.setValue name z) =
        (.ok none, ⟨before ++ { v with value := z } :: after⟩, log)) ∧
      (∀ fraction, attempt (r, log) (.setFraction name fraction) =
        if v.kind = .constant then (.error (.noSlider name), r, log)
        else (.ok none,
          ⟨before ++
            { v with value := .ofReal (v.minimum + (v.maximum - v.minimum) * fraction) } :: after⟩,
          log)) ∧
      attempt (r, log) (.remove name) = (.ok (some v), ⟨before ++ after⟩, log) ∧
      queue ⟨before ++ after⟩ name = rest
  /-- Time gives new values to time variables, shadowed ones too, and changes nothing else. -/
  tick :
    attempt (r, log) .tick = (.ok none, ⟨r.entries.map (·.advance)⟩, log) ∧
    ∀ v ∈ r.entries, v.advance = { v with value := v.advance.value } ∧
      (v.kind ≠ .time → v.advance = v)
  /-- A reset leaves the two constants. -/
  reset : attempt (r, log) .reset = (.ok none, standard, log)
  /-- An edit that fails leaves everything as it was.  It goes by a name that no variable has,
  or moves the slider of a constant. -/
  failure (e : Edit) (err : VariableError) (he : e.ByName)
    (h : (attempt (r, log) e).1 = .error err) :
    (attempt (r, log) e).2 = (r, log) ∧
    ∃ name, (err = .unbound name ∧ r.contains name = false) ∨
      (err = .noSlider name ∧ ∃ v rest, r.queue name = v :: rest ∧ v.kind = .constant)

theorem contains_eq_false_iff : r.contains name = false ↔ r.queue name = [] := by
  rw [contains_eq, Bool.not_eq_false', List.isEmpty_iff]

/-- An edit that fails goes by a name that no variable has, or moves the slider of a
constant. -/
theorem cause_of_attempt_error {e : Edit} {err : VariableError} (he : e.ByName)
    (h : (attempt (r, log) e).1 = .error err) :
    ∃ name, (err = .unbound name ∧ r.queue name = []) ∨
      (err = .noSlider name ∧ ∃ v rest, r.queue name = v :: rest ∧ v.kind = .constant) := by
  obtain ⟨r', log', hattempt, -, -⟩ := attempt_follows_edit r log he
  rw [hattempt] at h
  cases e with
  | add v => cases h
  | addConstant name value => cases h
  | addRange name minimum maximum fraction => cases h
  | addTime name minimum maximum step => cases h
  | setValue name z =>
    rw [VariableQueues.edit, VariableQueues.changeFront] at h
    cases hqueue : r.queue name with
    | nil =>
      rw [hqueue] at h
      cases h
      exact ⟨name, .inl ⟨rfl, hqueue⟩⟩
    | cons v rest =>
      rw [hqueue] at h
      cases h
  | setFraction name fraction =>
    rw [VariableQueues.edit, VariableQueues.changeFront] at h
    cases hqueue : r.queue name with
    | nil =>
      rw [hqueue] at h
      cases h
      exact ⟨name, .inl ⟨rfl, hqueue⟩⟩
    | cons v rest =>
      obtain ⟨before, after, -, -, hv⟩ := exists_oldest hqueue
      rw [hqueue] at h
      dsimp only at h
      by_cases hkind : v.kind = .constant
      · rw [Variable.setFraction, if_pos hkind, hv] at h
        cases h
        exact ⟨name, .inr ⟨rfl, v, rest, hqueue, hkind⟩⟩
      · rw [Variable.setFraction, if_neg hkind] at h
        cases h
  | remove name =>
    rw [VariableQueues.edit, VariableQueues.dequeue] at h
    cases hqueue : r.queue name with
    | nil =>
      rw [hqueue] at h
      cases h
      exact ⟨name, .inl ⟨rfl, hqueue⟩⟩
    | cons v rest =>
      rw [hqueue] at h
      cases h
  | tick => cases h
  | reset => cases h
  | advanceAt i => exact he.elim
  | setFractionAt i fraction => exact he.elim

/-- An edit that fails leaves everything as it was. -/
theorem attempt_snd_of_error {s : Registry × Log} {e : Edit} {err : VariableError}
    (h : (attempt s e).1 = .error err) : (attempt s e).2 = s := by
  unfold attempt at h ⊢
  cases hedit : s.1.edit s.2 e with
  | error err' => rfl
  | ok done =>
    rw [hedit] at h
    cases h

/-- **Every registry is first in, first out.** -/
theorem firstInFirstOut (r : Registry) (log : Log) : r.FirstInFirstOut log where
  lookup name := ⟨r.resolve_eq name, r.get_eq name, r.contains_eq name⟩
  added e v h := by
    refine ⟨(attempt_of_added h r log).trans ?_, fun name z hz => ?_⟩
    · rw [contains_eq]
      cases (r.queue v.name).isEmpty <;> rfl
    · rw [resolve_eq] at hz ⊢
      rw [queue_append]
      cases hqueue : r.queue name with
      | nil =>
        rw [hqueue] at hz
        cases hz
      | cons w rest =>
        rw [hqueue] at hz
        exact hz
  unbound name h := attempt_of_unbound (contains_eq_false_iff.mp h) log
  oldest name v rest h := by
    obtain ⟨before, after, hentries, hbefore, hv⟩ := exists_oldest h
    obtain ⟨hvalue, hfraction, hremove⟩ := attempt_of_oldest hentries hbefore hv log
    refine ⟨before, after, hentries, hbefore, hv, hvalue, hfraction, hremove, ?_⟩
    rw [queue_removed hentries hbefore hv h, Function.update_self]
  tick := by
    refine ⟨rfl, fun v _ => ⟨?_, Variable.advance_of_kind_ne⟩⟩
    rw [Variable.advance]
    split <;> rfl
  reset := rfl
  failure e err he h := by
    obtain ⟨name, hcause⟩ := cause_of_attempt_error he h
    refine ⟨attempt_snd_of_error h, name, hcause.imp_left fun hunbound => ?_⟩
    exact ⟨hunbound.1, contains_eq_false_iff.mpr hunbound.2⟩

theorem queue_new (defaults : Bool) :
    (new defaults).queue = if defaults then VariableQueues.standard else VariableQueues.empty := by
  cases defaults with
  | false => rfl
  | true => exact queue_standard

/-- **A registry behaves as a queue for each name.**  After any edits that go by names, each
answered and carried out as for the queues, and those that fail without effect, the variables of
each name are those of its queue, and the messages logged are those that the queues report.
Lookups see the front of each queue, and the next edit leaves everything but what it is about as
it was and where it was. -/
theorem behaves_as_queues (defaults : Bool) (log : Log) {edits : List Edit}
    (h : ∀ e ∈ edits, e.ByName) :
    let queues := VariableQueues.editAll
      (if defaults then VariableQueues.standard else VariableQueues.empty) edits
    ∃ r log', attemptAll (new defaults, log) edits = (queues.1, r, log') ∧
      r.queue = queues.2.1 ∧ log' = queues.2.2.foldl Log.push log ∧
      r.FirstInFirstOut log' := by
  obtain ⟨r, log', hall, hqueue, hlog⟩ := attemptAll_follows_editAll (new defaults) log h
  rw [queue_new] at hall hqueue hlog
  exact ⟨r, log', hall, hqueue, hlog, firstInFirstOut r log'⟩

/-- A second `pi` is shadowed until the constant is taken out; a slider moves it, but not the
constant, and it goes when it is taken out itself. -/
theorem behaves_as_queues_shadowed :
    let edits : List Edit := [.addRange "pi" 0 2 0.5, .setFraction "pi" 1, .remove "pi",
      .setFraction "pi" 1, .remove "pi", .remove "pi"]
    let constant : Variable := { name := "pi", value := .ofReal Binary64.pi }
    let slider : Variable := { name := "pi", kind := .range, value := ⟨1, 0⟩, maximum := 2 }
    (∀ e ∈ edits, e.ByName) ∧
    ∃ r log', attemptAll (new true, .empty) edits =
        ([.ok (some slider), .error (.noSlider "pi"), .ok (some constant), .ok none,
          .ok (some { slider with value := ⟨2, 0⟩ }), .error (.unbound "pi")], r, log') ∧
      r.queue "pi" = [] ∧ r.queue "e" = [{ name := "e", value := .ofReal Binary64.euler }] ∧
      log' = Log.empty.push ⟨.warning,
        "Variable 'pi' already exists, the new one is shadowed."⟩ ∧
      r.contains "pi" = false := by
  intro edits constant slider
  have hedits : ∀ e ∈ edits, e.ByName := by simp [edits, Edit.ByName]
  obtain ⟨r, log', hall, hqueue, hlog, hfifo⟩ := behaves_as_queues true .empty hedits
  have hpi : r.queue "pi" = [] := by
    rw [hqueue]
    decide +kernel
  refine ⟨hedits, r, log', ?_, hpi, ?_, ?_, ?_⟩
  · rw [hall]
    refine congrArg (·, r, log') ?_
    decide +kernel
  · rw [hqueue]
    decide +kernel
  · rw [hlog]
    decide +kernel
  · rw [(hfifo.lookup "pi").2.2, hpi]
    rfl

end Registry

end Argand
