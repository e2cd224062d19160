import Argand.ComplexNumber.Basic
import Argand.View

/-!
# Curves

The values of a formula at its samples, turned into curves in space.  Every
sample must have the same number of values; the first values make the first
curve, the second values the second.

## Main definitions

* `checkShape results` — every row is as long as the first; `ShapeError` tells of
  the first that is not.
* `Curve.point x z` — a value above a sample.
* `curvePoints samples results` — the curves, with their number.
* `CurveError` — why samples and results do not fit together.
-/

namespace Argand

/-- A row of results that is not as long as the first. -/
structure ShapeError where
  expected : Nat
  found : Nat
  index : Nat
  deriving DecidableEq, Repr

/-- The wording of the error. -/
def ShapeError.message (e : ShapeError) : String :=
  "sample " ++ toString e.index ++ " produced " ++ toString e.found ++ " value(s), expected " ++
    toString e.expected

/-- The first row, counted from `index`, that does not have `expected` entries. -/
def firstMisfit? {β : Type} (expected index : Nat) : List (List β) → Option ShapeError
  | [] => none
  | row :: rest =>
    if row.length = expected then firstMisfit? expected (index + 1) rest
    else some ⟨expected, row.length, index⟩

/-- How many values there are at each sample, going by the first. -/
def outputCount {β : Type} : List (List β) → Nat
  | [] => 0
  | row :: _ => row.length

/-- Checks that every row is as long as the first. -/
def checkShape {β : Type} (results : List (List β)) : Except ShapeError Unit :=
  match firstMisfit? (outputCount results) 0 results with
  | some e => .error e
  | none => .ok ()

/-- There is no misfit if all rows have the expected length. -/
theorem firstMisfit?_eq_none_iff {β : Type} {expected index : Nat} {rows : List (List β)} :
    firstMisfit? expected index rows = none ↔ ∀ row ∈ rows, row.length = expected := by
  induction rows generalizing index with
  | nil => simp [firstMisfit?]
  | cons row rest ih =>
    by_cases h : row.length = expected
    · simp [firstMisfit?, h, ih]
    · simp [firstMisfit?, h]

/-- Why samples and results do not fit together. -/
inductive CurveError
  /-- There are not as many rows of results as samples. -/
  | countMismatch (results samples : Nat)
  /-- A row is not as long as the first. -/
  | rowMismatch (index found expected : Nat)
  deriving DecidableEq, Repr

/-- The wording of an error. -/
def CurveError.message : CurveError → String
  | .countMismatch results samples =>
    "Got " ++ toString results ++ " results for " ++ toString samples ++ " samples."
  | .rowMismatch index found expected =>
    "Sample " ++ toString index ++ " has " ++ toString found ++ " values, expected " ++
      toString expected ++ "."

/-- Curves through the same number of samples. -/
structure Curves where
  sampleCount : Nat
  curves : List (List (Point Float))
  deriving DecidableEq, Repr

/-- A value above a sample. -/
def Curve.point (x : Float) (z : ComplexNumber Float) : Point Float := ⟨x, z.re, z.im⟩

/-- The points of each sample; every row must have the expected number of values.
Samples are counted from `index`. -/
def pointRows (expected index : Nat) :
    List Float → List (List (ComplexNumber Float)) → Except CurveError (List (List (Point Float)))
  | x :: xs, row :: rest =>
    if row.length = expected then
      (pointRows expected (index + 1) xs rest).map (row.map (Curve.point x) :: ·)
    else .error (.rowMismatch index row.length expected)
  | _, _ => .ok []

/-- The entries at one place of every row. -/
def entriesAt {β : Type} (rows : List (List β)) (j : Nat) : List β := rows.filterMap (·[j]?)

/-- The curves through the values at the samples. -/
def curvePoints (samples : List Float) (results : List (List (ComplexNumber Float))) :
    Except CurveError Curves :=
  if results.length ≠ samples.length then
    .error (.countMismatch results.length samples.length)
  else
    (pointRows (outputCount results) 0 samples results).map fun rows =>
      ⟨samples.length, (List.range (outputCount results)).map (entriesAt rows)⟩

example : (curvePoints [0, 1] [[⟨1, 2⟩, ⟨3, 4⟩], [⟨5, 6⟩, ⟨7, 8⟩]]).toOption =
    some ⟨2, [[⟨0, 1, 2⟩, ⟨1, 5, 6⟩], [⟨0, 3, 4⟩, ⟨1, 7, 8⟩]]⟩ := by decide +kernel

end Argand
