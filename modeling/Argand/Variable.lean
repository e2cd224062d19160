import Argand.ComplexNumber.Print
import Argand.SignedIndex
import Argand.Text.Quoted

/-!
# Variables

A variable is a name with a value.  The value of a range variable is set by a
slider between two bounds; that of a time variable moves from one bound to the
other in steps and starts again.

## Main definitions

* `VariableKind`, `Variable` — a name, its kind, its value and its bounds.
* `Variable.fraction`, `Variable.setFraction` — the place of the slider.
* `Variable.constant`, `Variable.range`, `Variable.time` — a new variable of each kind.
* `Variable.advance` — one step in time.
* `VariableError` — what cannot be done with a variable.
-/

namespace Argand

/-- How the value of a variable changes. -/
inductive VariableKind
  | constant
  | range
  | time
  deriving DecidableEq, Repr

/-- The name of a kind. -/
def VariableKind.name : VariableKind → String
  | .constant => "CONSTANT"
  | .range => "RANGE"
  | .time => "TIME"

/-- The kind with a given name. -/
def VariableKind.ofName? (s : String) : Option VariableKind :=
  [VariableKind.constant, .range, .time].find? (·.name == s)

/-- A name with a value.  The bounds may come in either order. -/
structure Variable where
  name : String
  kind : VariableKind := .constant
  value : ComplexNumber Float := .ofReal 0
  minimum : Float := 0
  maximum : Float := 1
  step : Float := 0.1
  deriving DecidableEq, Repr

/-- What cannot be done with variables. -/
inductive VariableError
  /-- There is no variable of this name. -/
  | unbound (name : String)
  /-- A constant cannot be set by a slider. -/
  | noSlider (name : String)
  /-- There is no variable at this place. -/
  | noSuchPlace (e : PlaceError)
  deriving DecidableEq, Repr

/-- The wording of an error; for an unbound name just the name. -/
def VariableError.message : VariableError → String
  | .unbound name => name
  | .noSlider name => "Constant '" ++ name ++ "' has no slider range."
  | .noSuchPlace e => e.message

namespace Variable

/-- The place of the slider, from zero at the minimum to one at the maximum; zero
if the bounds are the same. -/
def fraction (v : Variable) : Float :=
  let span := v.maximum - v.minimum
  if span == 0 then 0 else (v.value.re - v.minimum) / span

/-- The variable with its slider at a given place. -/
def withFraction (v : Variable) (fraction : Float) : Variable :=
  { v with value := .ofReal (v.minimum + (v.maximum - v.minimum) * fraction) }

/-- Moves the slider, which a constant does not have. -/
def setFraction (v : Variable) (fraction : Float) : Except VariableError Variable :=
  if v.kind = .constant then .error (.noSlider v.name) else .ok (v.withFraction fraction)

/-- A constant. -/
def constant (name : String) (value : ComplexNumber Float) : Variable := { name, value }

/-- A range variable, with its slider at a given place. -/
def range (name : String) (minimum maximum fraction : Float) : Variable :=
  withFraction { name, kind := .range, minimum, maximum } fraction

/-- A time variable, which begins at the first of its bounds. -/
def time (name : String) (minimum maximum step : Float) : Variable :=
  { name, kind := .time, value := .ofReal minimum, minimum, maximum, step }

/-- The smaller bound. -/
def low (v : Variable) : Float := if v.maximum < v.minimum then v.maximum else v.minimum

/-- The greater bound. -/
def high (v : Variable) : Float := if v.maximum < v.minimum then v.minimum else v.maximum

/-- A time variable makes a step, and starts again at the smaller bound once it
has left the greater one or is no number any more. -/
def advance (v : Variable) : Variable :=
  if v.kind = .time then
    let next := v.value.re + v.step
    { v with value := .ofReal (if v.high < next || !next.isFinite then v.low else next) }
  else v

/-- The name, the kind and the value. -/
def text (v : Variable) : String :=
  "Variable(" ++ Text.quoted v.name ++ ", " ++ v.kind.name ++ ", " ++
    v.value.print ComplexNumber.defaultPlaces ++ ")"

@[simp] theorem name_withFraction (v : Variable) (fraction : Float) :
    (v.withFraction fraction).name = v.name := rfl

@[simp] theorem name_advance (v : Variable) : v.advance.name = v.name := by
  unfold advance
  split <;> rfl

@[simp] theorem kind_advance (v : Variable) : v.advance.kind = v.kind := by
  unfold advance
  split <;> rfl

/-- Only time variables move. -/
theorem advance_of_kind_ne {v : Variable} (h : v.kind ≠ .time) : v.advance = v := by
  simp [advance, h]

end Variable

end Argand
