import Argand.Decimal.Shortest
import Argand.SignedIndex

/-!
# Domains

The interval of the real axis over which a formula is plotted, and the points at
which it is sampled.

## Main definitions

* `Domain`, `Domain.make` — an interval and the distance of its samples; the
  bounds may be given in either order, the step with either sign.
* `Domain.count`, `Domain.length` — how many samples there are; the length has an
  upper limit.
* `Domain.samples` — the samples, unless there are too many to be kept.
* `DomainError` — what is wrong with a domain.
-/

namespace Argand

/-- An interval and the distance of its samples. -/
structure Domain where
  low : Float
  high : Float
  step : Float
  deriving DecidableEq, Repr

/-- What is wrong with a domain. -/
inductive DomainError
  /-- A bound is infinite or undefined. -/
  | boundsNotFinite (minimum maximum : Float)
  /-- The step is infinite or undefined. -/
  | stepNotFinite (step : Float)
  /-- There are more samples than any double can count. -/
  | countInfinite
  /-- There are more samples than a length can be. -/
  | lengthTooLarge
  /-- There are more samples than a row can have. -/
  | tooManySamples
  /-- The samples, at eight bytes each, fill more than all memory. -/
  | samplesTooBig
  deriving DecidableEq, Repr

/-- The wording of an error. -/
def DomainError.message : DomainError → String
  | .boundsNotFinite minimum maximum =>
    "Domain bounds must be finite, got [" ++ Decimal.text minimum ++ ", " ++ Decimal.text maximum ++
      "]."
  | .stepNotFinite step => "Domain step must be finite, got " ++ Decimal.text step ++ "."
  | .countInfinite => "cannot convert float infinity to integer"
  | .lengthTooLarge => "cannot fit 'int' into an index-sized integer"
  | .tooManySamples => "Maximum allowed size exceeded"
  | .samplesTooBig =>
    "array is too big; `arr.size * arr.dtype.itemsize` is larger than the maximum possible size."

namespace Domain

/-- The step taken when none is given, or zero. -/
def defaultStep : Float := 0.05

/-- The first bound taken when none is given. -/
def defaultMinimum : Float := -2

/-- The second bound taken when none is given. -/
def defaultMaximum : Float := 2

/-- A domain from its bounds and its step, which must be finite. -/
def make (minimum maximum step : Float) : Except DomainError Domain :=
  if !(minimum.isFinite && maximum.isFinite) then .error (.boundsNotFinite minimum maximum)
  else if !step.isFinite then .error (.stepNotFinite step)
  else .ok
    { low := if maximum < minimum then maximum else minimum
      high := if minimum < maximum then maximum else minimum
      step := if step == 0 then defaultStep else step.abs }

/-- The domain taken when none is given. -/
def standard : Domain := ⟨defaultMinimum, defaultMaximum, defaultStep⟩

/-- How many samples there are: one more than the whole steps from bound to
bound. -/
def count (d : Domain) : Except DomainError Int :=
  match Binary64.floor? ((d.high - d.low) / d.step) with
  | some n => .ok (n + 1)
  | none => .error .countInfinite

/-- The number of samples as a length. -/
def length (d : Domain) : Except DomainError Int :=
  match d.count with
  | .error e => .error e
  | .ok n => if maxLength < n then .error .lengthTooLarge else .ok n

/-- The sample at a place. -/
def sample (d : Domain) (i : Nat) : Float := d.low + Float.ofNat i * d.step

/-- The samples, from the lower bound upwards. -/
def samples (d : Domain) : Except DomainError (List Float) :=
  match d.count with
  | .error e => .error e
  | .ok n =>
    if maxLength < n then .error .tooManySamples
    else if maxLength < 8 * n then .error .samplesTooBig
    else .ok ((List.range n.toNat).map d.sample)

/-- The bounds and the step. -/
def text (d : Domain) : String :=
  "Domain(" ++ Decimal.text d.low ++ ", " ++ Decimal.text d.high ++ ", step=" ++
    Decimal.text d.step ++ ")"

/-- There are as many samples as were counted. -/
theorem length_samples {d : Domain} {n : Int} {xs : List Float} (hn : d.count = .ok n)
    (hx : d.samples = .ok xs) : xs.length = n.toNat := by
  simp only [samples, hn] at hx
  split at hx
  · cases hx
  · split at hx
    · cases hx
    · cases hx
      simp

example : (make defaultMinimum defaultMaximum defaultStep).toOption = some standard := by
  decide +kernel

example : (make 1 0 (-0.25)).toOption.map (·.samples.toOption) =
    some (some [0, 0.25, 0.5, 0.75, 1]) := by decide +kernel

end Domain

end Argand
