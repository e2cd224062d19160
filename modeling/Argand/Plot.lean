import Argand.Curve
import Argand.Device
import Argand.Domain
import Argand.Evaluation.Batch
import Argand.Formula.Reader
import Argand.Registry

/-!
# Plots

A plot keeps the formula that was read last and the results of the last
evaluation that succeeded.  A formula that cannot be read, and an evaluation that
fails, are reported in the log; what was there before stays.

## Main definitions

* `Settings` — what an evaluation looks at besides the formula.
* `Plot` — settings, formula, samples and results.
* `Plot.setFormula` — reads a formula.
* `Plot.evaluate` — runs the program over the domain.
* `Plot.execute` — both, with a report; `Outcome` tells whether it worked.
* `Plot.curves`, `Plot.screenCurves`, `Plot.describe` — what there is to show.
* `PlotError`, `EvaluationFailure`, `DescribeError` — what can go wrong.
-/

namespace Argand

/-! ### Settings -/

/-- What an evaluation looks at besides the formula. -/
structure Settings where
  domain : Domain
  registry : Registry
  view : View Float
  device : Device
  batched : Bool
  precision : Int
  deriving Repr

/-- The settings taken when none are given. -/
def Settings.standard : Settings :=
  ⟨.standard, .standard, .standard, .processor, false, ComplexNumber.defaultPlaces⟩

/-! ### Errors -/

/-- Why a formula cannot be plotted. -/
inductive PlotError
  /-- The formula cannot be read. -/
  | parse (e : ParseError)
  /-- The program cannot be run. -/
  | eval (e : EvalError)
  /-- The samples do not have equally many values. -/
  | shape (e : ShapeError)
  deriving DecidableEq, Repr

/-- The wording of an error. -/
def PlotError.message : PlotError → String
  | .parse e => e.message
  | .eval e => e.message
  | .shape e => e.message

/-- Why there are no results: the formula is at fault, or the domain. -/
inductive EvaluationFailure
  | plot (e : PlotError)
  | domain (e : DomainError)
  deriving DecidableEq, Repr

/-- Why the values at a sample cannot be described. -/
inductive DescribeError
  /-- There is no such sample. -/
  | noSuchPlace (e : PlaceError)
  /-- The values cannot be printed with the precision that is set. -/
  | places (e : ComplexNumber.PlacesError)
  deriving DecidableEq, Repr

/-- The wording of an error. -/
def DescribeError.message : DescribeError → String
  | .noSuchPlace e => e.message
  | .places e => e.message

/-! ### Plots -/

/-- A plot: its settings, the formula read last, and the samples and results of
the last evaluation that succeeded. -/
structure Plot where
  settings : Settings
  reader : Reader
  program : Program
  text : String
  samples : List Float
  results : List (List (ComplexNumber Float))
  deriving Repr

/-- How an execution ended. -/
inductive Outcome
  | finished
  | cancelled
  deriving DecidableEq, Repr

namespace Plot

/-- A plot without a formula and without results. -/
def new (settings : Settings) : Plot := ⟨settings, .new, .empty, "", [], []⟩

/-- Reads a formula and keeps its program. -/
def setFormula (p : Plot) (text : String) : Except ParseError Program × Plot :=
  match p.reader.read text with
  | (.error e, reader) => (.error e, { p with reader })
  | (.ok program, reader) => (.ok program, { p with reader, program, text })

/-- The values of a program at each sample, in one of two ways. -/
def valuesAt (settings : Settings) (program : Program) (samples : List Float) :
    Except EvalError (List (List (ComplexNumber Float))) :=
  let xs := samples.map ComplexNumber.ofReal
  if settings.batched then
    (program.evaluateRows settings.registry.resolve xs).map (·.2)
  else program.evaluateAll settings.registry.resolve xs

/-- The samples of the domain and the values of a program there. -/
def compute (settings : Settings) (program : Program) :
    Except EvaluationFailure (List Float × List (List (ComplexNumber Float))) :=
  match settings.domain.samples with
  | .error e => .error (.domain e)
  | .ok samples =>
    match valuesAt settings program samples with
    | .error e => .error (.plot (.eval e))
    | .ok results =>
      match checkShape results with
      | .error e => .error (.plot (.shape e))
      | .ok () => .ok (samples, results)

/-- Runs the program over the domain and keeps the results. -/
def evaluate (p : Plot) :
    Except EvaluationFailure (List (List (ComplexNumber Float))) × Plot :=
  match compute p.settings p.program with
  | .error e => (.error e, p)
  | .ok (samples, results) => (.ok results, { p with samples, results })

/-- How many curves there are. -/
def curveCount (p : Plot) : Nat := outputCount p.results

/-! ### Executing -/

/-- What is reported when a formula cannot be plotted. -/
def failureReport (e : PlotError) : Report := .failure "Could not plot function" e.message

/-- What is reported after an evaluation. -/
def successReport (samples curves : Nat) : Report :=
  .info ("Evaluated " ++ toString samples ++ " sample(s), " ++ toString curves ++ " curve(s)")

/-- Evaluates the formula at hand, and reports what came of it.  An error of the
domain is not reported but handed on. -/
def evaluateReported (p : Plot) (log : Log) : Except DomainError Outcome × Plot × Log :=
  match p.evaluate with
  | (.error (.plot e), q) => (.ok .cancelled, q, log.record (failureReport e))
  | (.error (.domain e), q) => (.error e, q, log)
  | (.ok results, q) =>
    (.ok .finished, q, log.record (successReport results.length (outputCount results)))

/-- Reads a formula, unless it is the one at hand, and evaluates it. -/
def execute (p : Plot) (text? : Option String) (log : Log) :
    Except DomainError Outcome × Plot × Log :=
  match text? with
  | none => p.evaluateReported log
  | some text =>
    -- the formula at hand need not be read again
    if text = p.text then p.evaluateReported log
    else
      match p.setFormula text with
      | (.error e, q) => (.ok .cancelled, q, log.record (failureReport (.parse e)))
      | (.ok _, q) => q.evaluateReported log

/-! ### Showing -/

/-- The curves through the results. -/
def curves (p : Plot) : Except CurveError Curves := curvePoints p.samples p.results

/-- Where curves are seen on a canvas of a given size. -/
def screenCurves (p : Plot) (c : Curves) (width height : Float) :
    Except ViewError (List (List (Pixel Float))) :=
  c.curves.mapM (p.settings.view.toScreenAll width height)

/-- The values at the sample with a signed index, printed. -/
def describe (p : Plot) (i : Int) : Except DescribeError (List String) :=
  match signedGet "list" p.results i with
  | .error e => .error (.noSuchPlace e)
  | .ok values => (values.mapM (ComplexNumber.printWith p.settings.precision)).mapError .places

end Plot

end Argand
