import Argand.Proofs.PlotHistory

/-!
# Curves of a plot

Samples and results of a plot always fit together, whatever happened to it: there is a row of
results for each sample, and all rows are equally long.  So there are always curves through
the results, and each of their points is a value above its sample.

## Main definitions

* `Plot.InShape p` — a row for each sample, all rows equally long.

## Main results

* `curvePoints_eq_ok` — the curves through results that are in shape, point by point.
* `Plot.inShape_compute` — an evaluation comes to results in shape.
* `Plot.Reachable.inShape` — **every plot that can be reached is in shape.**
* `Plot.Reachable.curves_through_results` — such a plot has curves, and they go through its
  results.
-/

namespace Argand

/-! ### Rows of one length -/

/-- Rows pass the check exactly if each is as long as the first. -/
theorem checkShape_eq_ok_iff {β : Type} {rows : List (List β)} :
    checkShape rows = .ok () ↔ ∀ row ∈ rows, row.length = outputCount rows := by
  refine ⟨?_, checkShape_eq_ok⟩
  intro h
  rw [checkShape] at h
  cases hmisfit : firstMisfit? (outputCount rows) 0 rows with
  | some e =>
    rw [hmisfit] at h
    cases h
  | none => exact firstMisfit?_eq_none_iff.mp hmisfit

/-- Where every row has a place `j`, there is an entry from each row. -/
theorem length_entriesAt {β : Type} {rows : List (List β)} {j : Nat}
    (h : ∀ row ∈ rows, j < row.length) : (entriesAt rows j).length = rows.length := by
  induction rows with
  | nil => rfl
  | cons row rest ih =>
    have hj : j < row.length := h row List.mem_cons_self
    have hrest := ih fun r hr => h r (List.mem_cons_of_mem row hr)
    rw [entriesAt, List.filterMap_cons, List.getElem?_eq_getElem hj, List.length_cons,
      List.length_cons]
    exact congrArg (· + 1) hrest

/-- The entries at a place stand in the order of the rows. -/
theorem getElem?_entriesAt {β : Type} {rows : List (List β)} {j : Nat}
    (h : ∀ row ∈ rows, j < row.length) (i : Nat) :
    (entriesAt rows j)[i]? = rows[i]?.bind (·[j]?) := by
  induction rows generalizing i with
  | nil => rfl
  | cons row rest ih =>
    have hj : j < row.length := h row List.mem_cons_self
    have hrest := ih fun r hr => h r (List.mem_cons_of_mem row hr)
    rw [entriesAt, List.filterMap_cons, List.getElem?_eq_getElem hj]
    cases i with
    | zero => exact (List.getElem?_eq_getElem hj).symm
    | succ i => exact hrest i

/-! ### Points in space -/

variable {samples : List Float} {results : List (List (ComplexNumber Float))}

/-- Rows of the expected length become rows of points. -/
theorem pointRows_eq_ok {expected : Nat} (hlen : results.length = samples.length)
    (h : ∀ row ∈ results, row.length = expected) (index : Nat) :
    pointRows expected index samples results =
      .ok (samples.zipWith (fun x row => row.map (Curve.point x)) results) := by
  induction samples generalizing results index with
  | nil =>
    obtain rfl := List.length_eq_zero_iff.mp hlen
    rfl
  | cons x xs ih =>
    cases results with
    | nil => cases hlen
    | cons row rest =>
      have hrest := ih (Nat.succ.inj hlen) (fun r hr => h r (List.mem_cons_of_mem row hr))
        (index + 1)
      rw [pointRows, if_pos (h row List.mem_cons_self), hrest]
      rfl

/-- **There are curves through results in shape.**  There are as many curves as values in a
row, each with a point for every sample, and the point of curve `j` for sample `i` is the
value `j` of that sample above it. -/
theorem curvePoints_eq_ok (hlen : results.length = samples.length)
    (h : ∀ row ∈ results, row.length = outputCount results) :
    ∃ c, curvePoints samples results = .ok c ∧ c.sampleCount = samples.length ∧
      c.curves.length = outputCount results ∧
      (∀ curve ∈ c.curves, curve.length = samples.length) ∧
      ∀ i < samples.length, ∀ j < outputCount results, ∃ x row z curve,
        samples[i]? = some x ∧ results[i]? = some row ∧ row[j]? = some z ∧
        c.curves[j]? = some curve ∧ curve[i]? = some ⟨x, z.re, z.im⟩ := by
  let points := samples.zipWith (fun x row => row.map (Curve.point x)) results
  have hpoints : ∀ row ∈ points, row.length = outputCount results := by
    intro row hrow
    obtain ⟨i, hi, rfl⟩ := List.mem_iff_getElem.mp hrow
    have hi' : i < results.length := by simpa [points, hlen] using hi
    simpa [points] using h _ (List.getElem_mem hi')
  have hcount : points.length = samples.length := by simp [points, hlen]
  refine ⟨⟨samples.length, (List.range (outputCount results)).map (entriesAt points)⟩, ?_, rfl,
    ?_, ?_, ?_⟩
  · rw [curvePoints, if_neg (fun hne => hne hlen), pointRows_eq_ok hlen h]
    rfl
  · rw [List.length_map, List.length_range]
  · intro curve hcurve
    obtain ⟨j, hj, rfl⟩ := List.mem_map.mp hcurve
    have hplace : ∀ row ∈ points, j < row.length := fun row hrow =>
      (hpoints row hrow).symm ▸ List.mem_range.mp hj
    rw [length_entriesAt hplace, hcount]
  · intro i hi j hj
    have hi' : i < results.length := hlen.symm ▸ hi
    have hj' : j < results[i].length := (h _ (List.getElem_mem hi')).symm ▸ hj
    refine ⟨samples[i], results[i], results[i][j], entriesAt points j, by simp [hi], by simp [hi'],
      by simp [hj'], by simp [hj], ?_⟩
    have hplace : ∀ row ∈ points, j < row.length := fun row hrow =>
      (hpoints row hrow).symm ▸ hj
    have hpoint : points[i]? = some (results[i].map (Curve.point samples[i])) := by
      rw [List.getElem?_zipWith, List.getElem?_eq_getElem hi, List.getElem?_eq_getElem hi']
    rw [getElem?_entriesAt hplace, hpoint, Option.bind_some, List.getElem?_map,
      List.getElem?_eq_getElem hj']
    rfl

/-! ### A row for each sample -/

/-- The values at several points are as many rows as there are points. -/
theorem Program.length_evaluateAll {p : Program} {resolve : Resolver}
    {xs : List (ComplexNumber Float)} {rows : List (List (ComplexNumber Float))}
    (h : p.evaluateAll resolve xs = .ok rows) : rows.length = xs.length := by
  induction xs generalizing rows with
  | nil =>
    obtain rfl := Except.ok.inj h
    rfl
  | cons x xs ih =>
    rw [evaluateAll] at h
    cases hx : p.evaluate resolve x with
    | error e => rw [hx] at h; exact absurd h (by simp)
    | ok values =>
      rw [hx] at h
      cases hxs : p.evaluateAll resolve xs with
      | error e => rw [hxs] at h; exact absurd h (by simp [Except.map])
      | ok others =>
        rw [hxs] at h
        obtain rfl := Except.ok.inj h
        exact congrArg (· + 1) (ih hxs)

/-- The rows read off columns are as many as there are points, also where a program leaves no
column. -/
theorem Program.length_evaluateRows {p : Program} {resolve : Resolver}
    {xs : List (ComplexNumber Float)} {count : Nat} {rows : List (List (ComplexNumber Float))}
    (h : p.evaluateRows resolve xs = .ok (count, rows)) : rows.length = xs.length := by
  rw [evaluateRows] at h
  cases hcolumns : p.evaluateColumns (.standard xs.length) resolve (Column.ofList xs) with
  | error e => rw [hcolumns] at h; exact absurd h (by simp [Except.map])
  | ok columns =>
    rw [hcolumns] at h
    obtain ⟨-, rfl⟩ := Prod.mk.inj (Except.ok.inj h)
    exact Column.length_rows columns

namespace Plot

variable {p : Plot}

/-- There is a row of values for each sample, however the program is run. -/
theorem length_valuesAt {settings : Settings} {program : Program}
    (h : valuesAt settings program samples = .ok results) : results.length = samples.length := by
  unfold valuesAt at h
  dsimp only at h
  split at h
  · cases hrows : program.evaluateRows settings.registry.resolve
        (samples.map ComplexNumber.ofReal) with
    | error e => rw [hrows] at h; exact absurd h (by simp [Except.map])
    | ok rows =>
      rw [hrows] at h
      obtain rfl := Except.ok.inj h
      exact (Program.length_evaluateRows hrows).trans (List.length_map _)
  · exact (Program.length_evaluateAll h).trans (List.length_map _)

/-! ### Plots in shape -/

/-- There is a row of results for each sample, and all rows are equally long. -/
structure InShape (p : Plot) : Prop where
  length_results : p.results.length = p.samples.length
  length_row : ∀ row ∈ p.results, row.length = p.curveCount

theorem inShape_new (settings : Settings) : (new settings).InShape := ⟨rfl, nofun⟩

/-- Only samples and results count. -/
theorem InShape.congr {q : Plot} (h : p.InShape) (hsamples : q.samples = p.samples)
    (hresults : q.results = p.results) : q.InShape where
  length_results := by rw [hsamples, hresults, h.length_results]
  length_row := by
    rw [curveCount, hresults]
    exact h.length_row

/-- An evaluation comes to samples and results that fit together. -/
theorem inShape_compute {settings : Settings} {program : Program}
    (h : compute settings program = .ok (samples, results)) (p : Plot) :
    InShape { p with samples, results } := by
  cases hsamples : settings.domain.samples with
  | error e =>
    rw [compute, hsamples] at h
    cases h
  | ok xs =>
    rw [compute_eq hsamples] at h
    cases hvalues : valuesAt settings program xs with
    | error e =>
      rw [hvalues] at h
      cases h
    | ok rows =>
      rw [hvalues] at h
      obtain ⟨rfl, rfl⟩ := Prod.mk.inj (Except.ok.inj h)
      exact ⟨length_valuesAt hvalues, checkShape_eq_ok_iff.mp (checkShape_valuesAt hvalues)⟩

theorem InShape.setFormula (h : p.InShape) (text : String) : (p.setFormula text).2.InShape := by
  cases hparse : Program.parse text with
  | error e =>
    obtain ⟨reader, hset⟩ := setFormula_of_error hparse p
    rw [hset]
    exact h.congr rfl rfl
  | ok program =>
    obtain ⟨reader, hset⟩ := setFormula_of_ok hparse p
    rw [hset]
    exact h.congr rfl rfl

theorem InShape.evaluate (h : p.InShape) : p.evaluate.2.InShape := by
  rw [Plot.evaluate]
  cases hcompute : compute p.settings p.program with
  | error e => exact h
  | ok computed => exact inShape_compute hcompute p

theorem InShape.evaluateReported (h : p.InShape) (log : Log) :
    (p.evaluateReported log).2.1.InShape := by
  rw [evaluateReported_eq]
  rcases hcompute : compute p.settings p.program with ⟨_ | _⟩ | computed
  · exact h
  · exact h
  · exact inShape_compute hcompute p

/-- An execution reads a formula or not, and then evaluates or not. -/
theorem InShape.execute (h : p.InShape) (text? : Option String) (log : Log) :
    (p.execute text? log).2.1.InShape := by
  cases text? with
  | none => exact h.evaluateReported log
  | some text =>
    have hset := h.setFormula text
    rw [Plot.execute]
    split
    · exact h.evaluateReported log
    · rcases hread : p.setFormula text with ⟨_ | _, q⟩ <;> rw [hread] at hset
      · exact hset
      · exact hset.evaluateReported log

/-- **Every plot that can be reached is in shape.** -/
theorem Reachable.inShape (h : p.Reachable) : p.InShape := by
  induction h with
  | new settings => exact inShape_new settings
  | configure settings h ih => exact ih.congr rfl rfl
  | setFormula text h ih => exact ih.setFormula text
  | evaluate h ih => exact ih.evaluate
  | execute text? log h ih => exact ih.execute text? log

/-- **The curves of a plot go through its results.**  Whatever happened to a plot, its samples
and results fit together, so it has curves: one for each value of a row, with one point for
each sample, at which the value stands above the sample. -/
theorem Reachable.curves_through_results (h : p.Reachable) :
    p.results.length = p.samples.length ∧
    (∀ row ∈ p.results, row.length = p.curveCount) ∧
    ∃ c, p.curves = .ok c ∧ c.sampleCount = p.samples.length ∧
      c.curves.length = p.curveCount ∧
      (∀ curve ∈ c.curves, curve.length = p.samples.length) ∧
      ∀ i < p.samples.length, ∀ j < p.curveCount, ∃ x row z curve,
        p.samples[i]? = some x ∧ p.results[i]? = some row ∧ row[j]? = some z ∧
        c.curves[j]? = some curve ∧ curve[i]? = some ⟨x, z.re, z.im⟩ := by
  have hshape := h.inShape
  exact ⟨hshape.length_results, hshape.length_row,
    curvePoints_eq_ok hshape.length_results hshape.length_row⟩

/-- Two curves over three samples stay as they are when the domain changes and the next
formula fails. -/
theorem curves_after_failure :
    let drawn := ((new threeSamples).execute (some "x\n-x") .empty).2.1
    let p := (Plot.execute { drawn with settings := .standard } (some "foo") .empty).2.1
    p.Reachable ∧ p.text = "foo" ∧ p.samples = [0, 0.5, 1] ∧ p.curveCount = 2 ∧
    ∃ c, p.curves = .ok c ∧ c.sampleCount = 3 ∧ c.curves.length = 2 := by
  intro drawn p
  have hp : p.Reachable := .execute _ _ (.configure _ (.execute _ _ (Reachable.new threeSamples)))
  have hsamples : p.samples = [0, 0.5, 1] := by decide +kernel
  have hcount : p.curveCount = 2 := by decide +kernel
  obtain ⟨-, -, c, hc, hlength, hcurves, -⟩ := hp.curves_through_results
  rw [hsamples] at hlength
  rw [hcount] at hcurves
  exact ⟨hp, by decide +kernel, hsamples, hcount, c, hc, hlength, hcurves⟩

end Plot

end Argand
