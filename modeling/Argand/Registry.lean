import Argand.Evaluation.EvalError
import Argand.Log
import Argand.Variable

/-!
# The registry of variables

Variables in the order they were added.  A name stands for the oldest variable
that has it: a later one of the same name is shadowed, and comes to light when
the older ones are removed.

## Main definitions

* `Registry` — the variables.
* `Registry.find?`, `resolve`, `get`, `names`, `snapshot` — looking things up.
* `Registry.add`, `setValue`, `setFraction`, `remove`, `tick` — changes.
* `Registry.Edit`, `Registry.edit` — the changes as values, with the warnings they
  log.
* `VariableSource` — where an evaluation takes its names from.
-/

namespace Argand

/-- Variables in the order they were added. -/
structure Registry where
  entries : List Variable
  deriving DecidableEq, Repr

/-! ### The first variable of a name -/

/-- Changes the first variable of a name. -/
def modifyFirst (name : String) (change : Variable → Except VariableError Variable) :
    List Variable → Except VariableError (List Variable)
  | [] => .error (.unbound name)
  | v :: rest =>
    if v.name = name then (change v).map (· :: rest)
    else (modifyFirst name change rest).map (v :: ·)

/-- Takes the first variable of a name out. -/
def removeFirst (name : String) : List Variable → Except VariableError (Variable × List Variable)
  | [] => .error (.unbound name)
  | v :: rest =>
    if v.name = name then .ok (v, rest)
    else (removeFirst name rest).map fun (found, others) => (found, v :: others)

/-- The names with their values, each name once and with its first value; names
seen before are left out. -/
def firstValues (seen : List String) : List Variable → List (String × ComplexNumber Float)
  | [] => []
  | v :: rest =>
    if seen.contains v.name then firstValues seen rest
    else (v.name, v.value) :: firstValues (v.name :: seen) rest

namespace Registry

/-- The registry without variables. -/
def empty : Registry := ⟨[]⟩

/-- The registry with the two constants every formula can use. -/
def standard : Registry :=
  ⟨[{ name := "pi", value := .ofReal Binary64.pi },
    { name := "e", value := .ofReal Binary64.euler }]⟩

/-- A new registry, with or without the constants. -/
def new (defaults : Bool) : Registry := if defaults then standard else empty

/-! ### Looking up -/

/-- The first variable of a name. -/
def find? (r : Registry) (name : String) : Option Variable :=
  r.entries.find? (·.name == name)

/-- What a name stands for. -/
def resolve (r : Registry) : Resolver := fun name => (r.find? name).map (·.value)

/-- What a name stands for, which must be something. -/
def get (r : Registry) (name : String) : Except VariableError (ComplexNumber Float) :=
  match r.resolve name with
  | some z => .ok z
  | none => .error (.unbound name)

/-- Whether a name stands for something. -/
def contains (r : Registry) (name : String) : Bool := (r.find? name).isSome

/-- The names of all variables, shadowed ones included. -/
def names (r : Registry) : List String := r.entries.map (·.name)

/-- How many variables there are. -/
def size (r : Registry) : Nat := r.entries.length

/-- What each name stands for, in the order of the names. -/
def snapshot (r : Registry) : List (String × ComplexNumber Float) := firstValues [] r.entries

/-- The variable at a signed index. -/
def getAt (r : Registry) (i : Int) : Except VariableError Variable :=
  (signedGet "list" r.entries i).mapError .noSuchPlace

/-! ### Changes -/

/-- Adds a variable behind all others. -/
def add (r : Registry) (v : Variable) : Registry := ⟨r.entries ++ [v]⟩

/-- What is logged when a variable of this name is added. -/
def shadowWarning? (r : Registry) (name : String) : Option Report :=
  if r.contains name then
    some (.warning ("Variable '" ++ name ++ "' already exists, the new one is shadowed."))
  else none

/-- Changes the first variable of a name. -/
def modify (r : Registry) (name : String) (change : Variable → Except VariableError Variable) :
    Except VariableError Registry :=
  (modifyFirst name change r.entries).map (⟨·⟩)

/-- Gives a value to the first variable of a name. -/
def setValue (r : Registry) (name : String) (z : ComplexNumber Float) :
    Except VariableError Registry :=
  r.modify name fun v => .ok { v with value := z }

/-- Moves the slider of the first variable of a name. -/
def setFraction (r : Registry) (name : String) (fraction : Float) :
    Except VariableError Registry :=
  r.modify name (·.setFraction fraction)

/-- Takes out the first variable of a name. -/
def remove (r : Registry) (name : String) : Except VariableError (Variable × Registry) :=
  (removeFirst name r.entries).map fun (v, rest) => (v, ⟨rest⟩)

/-- Lets every variable make a step in time. -/
def tick (r : Registry) : Registry := ⟨r.entries.map (·.advance)⟩

/-- Changes the variable at a signed index. -/
def modifyAt (r : Registry) (i : Int) (change : Variable → Except VariableError Variable) :
    Except VariableError Registry :=
  match r.getAt i with
  | .error e => .error e
  | .ok v =>
    (change v).map fun changed =>
      ⟨r.entries.set ((signedIndex? r.size i).getD 0) changed⟩

/-! ### Changes as values -/

/-- A change of a registry. -/
inductive Edit
  | add (v : Variable)
  | addConstant (name : String) (value : ComplexNumber Float)
  | addRange (name : String) (minimum maximum fraction : Float)
  | addTime (name : String) (minimum maximum step : Float)
  | setValue (name : String) (value : ComplexNumber Float)
  | setFraction (name : String) (fraction : Float)
  | remove (name : String)
  | tick
  | reset
  | advanceAt (i : Int)
  | setFractionAt (i : Int) (fraction : Float)
  deriving DecidableEq, Repr

/-- The variable that an edit adds, if it adds one. -/
def Edit.added? : Edit → Option Variable
  | .add v => some v
  | .addConstant name value => some (.constant name value)
  | .addRange name minimum maximum fraction => some (.range name minimum maximum fraction)
  | .addTime name minimum maximum step => some (.time name minimum maximum step)
  | .setValue _ _ | .setFraction _ _ | .remove _ | .tick | .reset => none
  | .advanceAt _ | .setFractionAt _ _ => none

/-- Adds a variable, with a warning if its name is taken. -/
def addLogged (r : Registry) (v : Variable) (log : Log) : Registry × Log :=
  (r.add v, match r.shadowWarning? v.name with
    | some report => log.record report
    | none => log)

/-- Carries an edit out.  The answer holds the variable that was added or taken
out. -/
def edit (r : Registry) (log : Log) (e : Edit) :
    Except VariableError (Option Variable × Registry × Log) :=
  let added (v : Variable) := .ok (some v, r.addLogged v log)
  match e with
  | .add v => added v
  | .addConstant name value => added (.constant name value)
  | .addRange name minimum maximum fraction => added (.range name minimum maximum fraction)
  | .addTime name minimum maximum step => added (.time name minimum maximum step)
  | .setValue name z => (r.setValue name z).map (none, ·, log)
  | .setFraction name fraction => (r.setFraction name fraction).map (none, ·, log)
  | .remove name => (r.remove name).map fun (v, rest) => (some v, rest, log)
  | .tick => .ok (none, r.tick, log)
  | .reset => .ok (none, standard, log)
  | .advanceAt i => (r.modifyAt i (.ok ·.advance)).map (none, ·, log)
  | .setFractionAt i fraction => (r.modifyAt i (·.setFraction fraction)).map (none, ·, log)

/-! ### Basic properties -/

@[simp] theorem names_add (r : Registry) (v : Variable) :
    (r.add v).names = r.names ++ [v.name] := by
  simp [names, add]

/-- An edit that adds a variable answers with it. -/
theorem edit_of_added {e : Edit} {v : Variable} (h : e.added? = some v) (r : Registry)
    (log : Log) : r.edit log e = .ok (some v, r.addLogged v log) := by
  cases e <;> cases h <;> rfl

/-- Time changes no names. -/
@[simp] theorem names_tick (r : Registry) : r.tick.names = r.names := by
  simp [names, tick, Function.comp_def]

/-- A name that is taken keeps its meaning when a variable is added. -/
theorem find?_add (r : Registry) (v : Variable) (name : String) :
    (r.add v).find? name = (r.find? name).or (if v.name = name then some v else none) := by
  simp only [find?, add, List.find?_append]
  by_cases h : v.name = name <;> simp [h]

end Registry

/-! ### Sources of names -/

/-- Where an evaluation takes its names from. -/
inductive VariableSource
  /-- No names at all. -/
  | nothing
  /-- A registry. -/
  | registry (r : Registry)
  /-- Names with their values; a later value replaces an earlier one. -/
  | mapping (entries : List (String × ComplexNumber Float))
  /-- Something of another type, in which nothing can be looked up. -/
  | unsupported (typeName : String)
  deriving DecidableEq, Repr

/-- A source in which nothing can be looked up. -/
structure SourceError where
  typeName : String
  deriving DecidableEq, Repr

/-- The wording of the error. -/
def SourceError.message (e : SourceError) : String :=
  "Unsupported variable registry: " ++ e.typeName

/-- What the names of a source stand for. -/
def VariableSource.resolver : VariableSource → Except SourceError Resolver
  | .nothing => .ok fun _ => none
  | .registry r => .ok r.resolve
  | .mapping entries => .ok fun name => entries.reverse.lookup name
  | .unsupported typeName => .error ⟨typeName⟩

end Argand
