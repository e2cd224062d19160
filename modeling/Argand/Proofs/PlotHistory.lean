import Argand.Plot
import Argand.Proofs.Outline
import Argand.Proofs.Readers

/-!
# The history of a plot

A plot does not read a formula again that it has at hand, and it goes on with the reader
that an earlier formula left behind.  Neither shows: what an execution comes to depends on
the formula and the settings alone.  What an execution that fails leaves behind does depend
on where it failed.

## Main definitions

* `Plot.Reachable` — the plots that any calls and any changes of the settings lead to.
* `Plot.Coherent` — the program at hand is that of the text at hand.
* `Plot.fresh` — what a formula comes to when nothing has gone before.

## Main results

* `Plot.execute_eq_of_unreadable`, `Plot.execute_eq_of_readable` — what an execution does.
* `Plot.Reachable.coherent` — **every plot that can be reached is coherent.**
* `Plot.execute_ignores_history` — an execution comes to what it would afresh.
* `Plot.execute_cancelled` — a cancelled execution keeps samples and results; it keeps
  program and text exactly if there was nothing new to read or it could not be read.
-/

namespace Argand.Plot

variable {p q : Plot} {log : Log} {samples : List Float}

/-! ### Plots that can be reached -/

/-- The plots that calls, successful or not, and changes of the settings lead to. -/
inductive Reachable : Plot → Prop
  | new (settings : Settings) : Reachable (.new settings)
  | configure {p : Plot} (settings : Settings) (h : Reachable p) : Reachable { p with settings }
  | setFormula {p : Plot} (text : String) (h : Reachable p) : Reachable (p.setFormula text).2
  | evaluate {p : Plot} (h : Reachable p) : Reachable p.evaluate.2
  | execute {p : Plot} (text? : Option String) (log : Log) (h : Reachable p) :
      Reachable (p.execute text? log).2.1

/-- The program at hand is what the text at hand reads as. -/
def Coherent (p : Plot) : Prop := Program.parse p.text = .ok p.program

/-! ### What each call does -/

/-- A formula that cannot be read leaves everything but the reader. -/
theorem setFormula_of_error {text : String} {e : ParseError} (h : Program.parse text = .error e)
    (p : Plot) : ∃ reader, p.setFormula text = (.error e, { p with reader }) := by
  have hread := p.reader.read_fst text
  rw [setFormula]
  rcases hr : p.reader.read text with ⟨result, reader⟩
  obtain rfl : result = .error e := by rwa [hr, h] at hread
  exact ⟨reader, rfl⟩

/-- A formula that can be read takes the place of the one at hand. -/
theorem setFormula_of_ok {text : String} {program : Program} (h : Program.parse text = .ok program)
    (p : Plot) : ∃ reader, p.setFormula text = (.ok program, { p with reader, program, text }) := by
  have hread := p.reader.read_fst text
  rw [setFormula]
  rcases hr : p.reader.read text with ⟨result, reader⟩
  obtain rfl : result = .ok program := by rwa [hr, h] at hread
  exact ⟨reader, rfl⟩

/-- The values of a program at the samples are in shape. -/
theorem checkShape_valuesAt {settings : Settings} {program : Program}
    {results : List (List (ComplexNumber Float))}
    (h : valuesAt settings program samples = .ok results) : checkShape results = .ok () := by
  unfold valuesAt at h
  dsimp only at h
  split at h
  · cases hrows : program.evaluateRows settings.registry.resolve
        (samples.map ComplexNumber.ofReal) with
    | error e => rw [hrows] at h; exact absurd h (by simp [Except.map])
    | ok rows =>
      rw [hrows] at h
      obtain rfl := Except.ok.inj h
      exact Program.checkShape_evaluateRows hrows
  · exact Program.checkShape_evaluateAll h

/-- With samples, only the program can fail. -/
theorem compute_eq {settings : Settings} (h : settings.domain.samples = .ok samples)
    (program : Program) :
    compute settings program =
      match valuesAt settings program samples with
      | .error e => .error (.plot (.eval e))
      | .ok results => .ok (samples, results) := by
  rw [compute, h]
  dsimp only
  cases hvalues : valuesAt settings program samples with
  | error e => rfl
  | ok results =>
    dsimp only
    rw [checkShape_valuesAt hvalues]

/-! ### What an execution does -/

/-- Only a new formula can be one that cannot be read; it is reported, and everything but
the reader stays. -/
theorem execute_eq_of_unreadable {e : ParseError} (hp : p.Coherent) (text? : Option String)
    (h : Program.parse (text?.getD p.text) = .error e) (log : Log) :
    ∃ reader, p.execute text? log =
      (.ok .cancelled, { p with reader }, log.record (failureReport (.parse e))) := by
  have hnew : text?.getD p.text ≠ p.text := by
    intro hsame
    rw [hsame] at h
    exact nomatch hp.symm.trans h
  cases text? with
  | none => exact absurd rfl hnew
  | some text =>
    rw [Option.getD_some] at h hnew
    obtain ⟨reader, hset⟩ := setFormula_of_error h p
    refine ⟨reader, ?_⟩
    simp only [execute]
    rw [if_neg hnew, hset]

/-- A formula that can be read is evaluated, whether it has been read before or not. -/
theorem execute_eq_of_readable {program : Program} (hp : p.Coherent) (text? : Option String)
    (h : Program.parse (text?.getD p.text) = .ok program) (log : Log) :
    ∃ reader, p.execute text? log =
      { p with reader, program, text := text?.getD p.text }.evaluateReported log := by
  have hkept (hparse : Program.parse p.text = .ok program) : p.program = program :=
    Except.ok.inj (hp.symm.trans hparse)
  cases text? with
  | none =>
    obtain rfl := hkept h
    exact ⟨p.reader, rfl⟩
  | some text =>
    rw [Option.getD_some] at h ⊢
    simp only [execute]
    split
    · next hsame =>
      subst hsame
      obtain rfl := hkept h
      exact ⟨p.reader, rfl⟩
    · obtain ⟨reader, hset⟩ := setFormula_of_ok h p
      rw [hset]
      exact ⟨reader, rfl⟩

/-! ### Coherence -/

theorem coherent_new (settings : Settings) : (new settings).Coherent := rfl

theorem Coherent.setFormula (h : p.Coherent) (text : String) : (p.setFormula text).2.Coherent := by
  cases hparse : Program.parse text with
  | error e =>
    obtain ⟨reader, hset⟩ := setFormula_of_error hparse p
    rw [hset]
    exact h
  | ok program =>
    obtain ⟨reader, hset⟩ := setFormula_of_ok hparse p
    rw [hset]
    exact hparse

theorem Coherent.evaluate (h : p.Coherent) : p.evaluate.2.Coherent := by
  rw [Plot.evaluate]
  rcases compute p.settings p.program with e | ⟨samples, results⟩ <;> exact h

/-- What is reported, and kept, depends on what the evaluation comes to. -/
theorem evaluateReported_eq (p : Plot) (log : Log) :
    p.evaluateReported log =
      match compute p.settings p.program with
      | .error (.plot e) => (.ok .cancelled, p, log.record (failureReport e))
      | .error (.domain e) => (.error e, p, log)
      | .ok (samples, results) => (.ok .finished, { p with samples, results },
          log.record (successReport results.length (outputCount results))) := by
  rw [evaluateReported, evaluate]
  rcases compute p.settings p.program with ⟨_ | _⟩ | ⟨samples, results⟩ <;> rfl

theorem Coherent.evaluateReported (h : p.Coherent) (log : Log) :
    (p.evaluateReported log).2.1.Coherent := by
  rw [evaluateReported_eq]
  rcases compute p.settings p.program with ⟨_ | _⟩ | ⟨samples, results⟩ <;> exact h

theorem Coherent.execute (h : p.Coherent) (text? : Option String) (log : Log) :
    (p.execute text? log).2.1.Coherent := by
  cases hparse : Program.parse (text?.getD p.text) with
  | error e =>
    obtain ⟨reader, hexecute⟩ := execute_eq_of_unreadable h text? hparse log
    rw [hexecute]
    exact h
  | ok program =>
    obtain ⟨reader, hexecute⟩ := execute_eq_of_readable h text? hparse log
    have hq : Coherent { p with reader, program, text := text?.getD p.text } := hparse
    rw [hexecute]
    exact hq.evaluateReported log

/-- **Every plot that can be reached is coherent.** -/
theorem Reachable.coherent (h : p.Reachable) : p.Coherent := by
  induction h with
  | new settings => exact coherent_new settings
  | configure settings h ih => exact ih
  | setFormula text h ih => exact ih.setFormula text
  | evaluate h ih => exact ih.evaluate
  | execute text? log h ih => exact ih.execute text? log

/-! ### Executing afresh -/

/-- What a formula comes to when nothing has gone before: its program, the samples and the
values there, or the first thing that goes wrong. -/
def fresh (settings : Settings) (text : String) :
    Except EvaluationFailure (Program × List Float × List (List (ComplexNumber Float))) :=
  match Program.parse text with
  | .error e => .error (.plot (.parse e))
  | .ok program =>
    match settings.domain.samples with
    | .error e => .error (.domain e)
    | .ok samples =>
      match valuesAt settings program samples with
      | .error e => .error (.plot (.eval e))
      | .ok results => .ok (program, samples, results)

/-- A formula that can be read comes to what an evaluation of its program comes to. -/
theorem fresh_of_readable {settings : Settings} {text : String} {program : Program}
    (h : Program.parse text = .ok program) :
    fresh settings text = (compute settings program).map (program, ·) := by
  rw [fresh, h]
  dsimp only
  cases hsamples : settings.domain.samples with
  | error e =>
    rw [compute, hsamples]
    rfl
  | ok samples =>
    rw [compute_eq hsamples]
    dsimp only
    cases valuesAt settings program samples <;> rfl

/-- **An execution comes to what the formula comes to afresh**: the error is reported, or
samples and results are kept and their number is reported.  Only an error of the domain is
handed on. -/
theorem execute_ignores_history (hp : p.Reachable) (text? : Option String) (log : Log) :
    match fresh p.settings (text?.getD p.text) with
    | .error (.plot e) => ∃ q, p.execute text? log =
        (.ok .cancelled, q, log.push ⟨.error, "Could not plot function" ++ ": " ++ e.message⟩)
    | .error (.domain e) => ∃ q, p.execute text? log = (.error e, q, log)
    | .ok (program, samples, results) => ∃ reader, p.execute text? log =
        (.ok .finished,
          ⟨p.settings, reader, program, text?.getD p.text, samples, results⟩,
          log.push ⟨.info, "Evaluated " ++ toString results.length ++ " sample(s), " ++
            toString (outputCount results) ++ " curve(s)"⟩) := by
  cases hparse : Program.parse (text?.getD p.text) with
  | error e =>
    obtain ⟨reader, hexecute⟩ := execute_eq_of_unreadable hp.coherent text? hparse log
    rw [fresh, hparse, hexecute]
    exact ⟨_, rfl⟩
  | ok program =>
    obtain ⟨reader, hexecute⟩ := execute_eq_of_readable hp.coherent text? hparse log
    rw [hexecute, evaluateReported_eq, fresh_of_readable hparse]
    rcases compute p.settings program with ⟨e | e⟩ | ⟨samples, results⟩
    · exact ⟨_, rfl⟩
    · exact ⟨_, rfl⟩
    · exact ⟨_, rfl⟩

/-- The standard settings, but for a domain of three samples. -/
def threeSamples : Settings := { Settings.standard with domain := ⟨0, 1, 0.5⟩ }

/-- A plot that has failed goes on as if it were new. -/
theorem execute_ignores_history_after_failure :
    let p := ((new threeSamples).execute (some "x\nfoo") .empty).2.1
    p.Reachable ∧ p.text = "x\nfoo" ∧
    ∃ reader, p.execute (some "x") .empty =
      (.ok .finished,
        ⟨p.settings, reader, ⟨[⟨.input, 1⟩], "x"⟩, "x", [0, 0.5, 1],
          [[⟨0, 0⟩], [⟨0.5, 0⟩], [⟨1, 0⟩]]⟩,
        Log.empty.push ⟨.info, "Evaluated 3 sample(s), 1 curve(s)"⟩) := by
  intro p
  have hp : p.Reachable := .execute _ _ (.new threeSamples)
  have hfresh : fresh p.settings ((some "x").getD p.text) =
      .ok (⟨[⟨.input, 1⟩], "x"⟩, [0, 0.5, 1], [[⟨0, 0⟩], [⟨0.5, 0⟩], [⟨1, 0⟩]]) := by
    decide +kernel
  have h := execute_ignores_history hp (some "x") .empty
  rw [hfresh] at h
  exact ⟨hp, by decide +kernel, h⟩

/-- The samples of this domain can be counted, but there are too many to be kept.  The
formula can be read and its only name means nothing, but that is not what is reported. -/
theorem execute_hands_on_domain_error :
    let settings : Settings := { Settings.standard with domain := ⟨0, 1e300, 1⟩ }
    Domain.make 0 1e300 1 = .ok settings.domain ∧
    settings.domain.count.isOk = true ∧
    (new settings).Reachable ∧
    Program.parse "foo" = .ok ⟨[⟨.identifier "foo", 1⟩], "foo"⟩ ∧
    (Program.mk [⟨.identifier "foo", 1⟩] "foo").evaluate settings.registry.resolve ⟨0, 0⟩ =
      .error (.unknownIdentifier "foo" 1) ∧
    ((new settings).execute (some "foo") .empty).1 = .error .tooManySamples ∧
    ((new settings).execute (some "foo") .empty).2.2 = .empty := by
  exact ⟨by decide +kernel, by decide +kernel, .new _, by decide +kernel, by decide +kernel,
    by decide +kernel, by decide +kernel⟩

/-! ### What a cancelled execution leaves behind -/

/-- **A cancelled execution keeps samples and results.**  It keeps program and text exactly
if there was nothing new to read or it could not be read; else it leaves the new ones. -/
theorem execute_cancelled {text? : Option String} {log' : Log} (hp : p.Reachable)
    (h : p.execute text? log = (.ok .cancelled, q, log')) :
    q.samples = p.samples ∧ q.results = p.results ∧
    ((q.program = p.program ∧ q.text = p.text) ↔
      (text?.getD p.text = p.text ∨ ∃ e, Program.parse (text?.getD p.text) = .error e)) ∧
    ∀ program, Program.parse (text?.getD p.text) = .ok program →
      q.program = program ∧ q.text = text?.getD p.text := by
  cases hparse : Program.parse (text?.getD p.text) with
  | error e =>
    obtain ⟨reader, hexecute⟩ := execute_eq_of_unreadable hp.coherent text? hparse log
    obtain rfl : { p with reader } = q :=
      congrArg (·.2.1) (hexecute.symm.trans h)
    exact ⟨rfl, rfl, ⟨fun _ => .inr ⟨e, rfl⟩, fun _ => ⟨rfl, rfl⟩⟩, fun _ h => nomatch h⟩
  | ok program =>
    obtain ⟨reader, hexecute⟩ := execute_eq_of_readable hp.coherent text? hparse log
    obtain rfl : { p with reader, program, text := text?.getD p.text } = q := by
      rw [hexecute, evaluateReported_eq] at h
      rcases hcompute : compute p.settings program with ⟨e | e⟩ | ⟨samples, results⟩ <;>
        rw [hcompute] at h
      · exact congrArg (·.2.1) h
      · exact nomatch congrArg (·.1) h
      · exact nomatch congrArg (·.1) h
    refine ⟨rfl, rfl, ⟨fun hsame => .inl hsame.2, ?_⟩, fun program' h => ⟨Except.ok.inj h, rfl⟩⟩
    rintro (hsame | ⟨e, he⟩)
    · rw [hsame] at hparse
      exact ⟨Except.ok.inj (hparse.symm.trans hp.coherent), hsame⟩
    · cases he

/-- A formula that fails at its second line takes the place of the one before. -/
theorem execute_cancelled_new_formula :
    let p := ((new threeSamples).execute (some "x") .empty).2.1
    ∃ q log', p.execute (some "x\nfoo") .empty = (.ok .cancelled, q, log') ∧
      q.samples = p.samples ∧ q.results = p.results ∧
      q.program = ⟨[⟨.input, 1⟩, ⟨.identifier "foo", 2⟩], "x\nfoo"⟩ ∧ q.text = "x\nfoo" := by
  intro p
  have hp : p.Reachable := .execute _ _ (.new threeSamples)
  have hparse : Program.parse ((some "x\nfoo").getD p.text) =
      .ok ⟨[⟨.input, 1⟩, ⟨.identifier "foo", 2⟩], "x\nfoo"⟩ := by decide +kernel
  have houtcome : (p.execute (some "x\nfoo") .empty).1 = .ok .cancelled := by decide +kernel
  have hcancelled : p.execute (some "x\nfoo") .empty =
      (.ok .cancelled, (p.execute (some "x\nfoo") .empty).2) := by rw [← houtcome]
  obtain ⟨hsamples, hresults, -, hformula⟩ := execute_cancelled hp hcancelled
  exact ⟨_, _, hcancelled, hsamples, hresults, hformula _ hparse⟩

/-- A cancelled execution can leave another program and another text behind. -/
theorem execute_cancelled_leaves_trace :
    let p := ((new threeSamples).execute (some "x") .empty).2.1
    let after := p.execute (some "x\nfoo") .empty
    p.Reachable ∧ after.1 = .ok .cancelled ∧
    p.text = "x" ∧ p.program.tokens = [⟨.input, 1⟩] ∧
    after.2.1.text = "x\nfoo" ∧
    after.2.1.program.tokens = [⟨.input, 1⟩, ⟨.identifier "foo", 2⟩] := by
  exact ⟨.execute _ _ (.new _), by decide +kernel, by decide +kernel, by decide +kernel,
    by decide +kernel, by decide +kernel⟩

end Argand.Plot
