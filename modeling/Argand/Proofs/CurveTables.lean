import Argand.Proofs.Curves

/-!
# The table of points

The points of curves can also be written one after the other into a table that has a place for each
curve and each sample: row by row of the results, each row checked before it is written, and each row
of results down one column of the table.  Here this loop is written out as a list of writes.  It
succeeds and fails like the check of the shape, it writes every place of the table exactly once and
no other, and what it leaves there are the curves.

## Main definitions

* `PointWrite`, `rowWrites`, `tableWrites` — the writes of the loop, in their order.
* `fillTable` — the loop: the writes up to the end, or the first row that is too long or too short.
* `PointTable.ofWrites` — the table after some writes; places that were not written are `none`.
* `Curves.valueRows` — the results read back from the curves.

## Main results

* `firstMisfit?_eq_some` — what the check of the shape reports.
* `pointRows_eq`, `fillTable_eq` — **three loops over the rows fail alike.**
* `writeCount_tableWrites` — every place is written exactly once.
* `getElem?_curves` — what stands at a place of the curves.
* `curvePoints_fills_table` — **curves are a table that is filled without loss.**
-/

namespace Argand

/-! ### The first row that does not fit -/

/-- The row that is reported stands behind rows of the expected length. -/
theorem firstMisfit?_eq_some {β : Type} {expected index : Nat} {rows : List (List β)}
    {e : ShapeError} (h : firstMisfit? expected index rows = some e) :
    ∃ before row after, rows = before ++ row :: after ∧ (∀ r ∈ before, r.length = expected) ∧
      row.length ≠ expected ∧ e = ⟨expected, row.length, index + before.length⟩ := by
  induction rows generalizing index with
  | nil => cases h
  | cons row rest ih =>
    rw [firstMisfit?] at h
    split at h
    · next hfits =>
      obtain ⟨before, misfit, after, rfl, hbefore, hlength, rfl⟩ := ih h
      refine ⟨row :: before, misfit, after, rfl, List.forall_mem_cons.mpr ⟨hfits, hbefore⟩,
        hlength, ?_⟩
      rw [List.length_cons, Nat.add_right_comm, Nat.add_assoc]
    · next hmisfit =>
      obtain rfl := Option.some.inj h
      exact ⟨[], row, rest, rfl, List.forall_mem_nil _, hmisfit, rfl⟩

/-- What a loop over the rows reports of a misfit. -/
def ShapeError.toCurveError (e : ShapeError) : CurveError := .rowMismatch e.index e.found e.expected

variable {samples : List Float} {results : List (List (ComplexNumber Float))}

theorem pointRows_eq {expected index : Nat} (hlen : results.length = samples.length) :
    pointRows expected index samples results =
      match firstMisfit? expected index results with
      | some e => .error e.toCurveError
      | none => .ok (samples.zipWith (fun x row => row.map (Curve.point x)) results) := by
  induction samples generalizing results index with
  | nil =>
    obtain rfl := List.length_eq_zero_iff.mp hlen
    rfl
  | cons x xs ih =>
    cases results with
    | nil => cases hlen
    | cons row rest =>
      rw [pointRows, firstMisfit?, ih (Nat.succ.inj hlen)]
      split
      · cases firstMisfit? expected (index + 1) rest <;> rfl
      · rfl

/-! ### Writing points into a table -/

/-- A point that is written to the place of a curve and a sample. -/
structure PointWrite where
  curve : Nat
  sample : Nat
  point : Point Float

/-- The writes for a row of results: its values go to the curves from `curve` on. -/
def rowWrites (sample curve : Nat) (x : Float) : List (ComplexNumber Float) → List PointWrite
  | [] => []
  | z :: rest => ⟨curve, sample, Curve.point x z⟩ :: rowWrites sample (curve + 1) x rest

/-- The writes for all rows, for samples from `sample` on. -/
def tableWrites (sample : Nat) :
    List Float → List (List (ComplexNumber Float)) → List PointWrite
  | x :: xs, row :: rest => rowWrites sample 0 x row ++ tableWrites (sample + 1) xs rest
  | _, _ => []

/-- The loop that fills a table with `curves` curves.  A row is checked before it is written. -/
def fillTable (curves sample : Nat) :
    List Float → List (List (ComplexNumber Float)) → Except CurveError (List PointWrite)
  | x :: xs, row :: rest =>
    if row.length ≠ curves then .error (.rowMismatch sample row.length curves)
    else (fillTable curves (sample + 1) xs rest).map (rowWrites sample 0 x row ++ ·)
  | _, _ => .ok []

/-- A place for each curve and each sample. -/
abbrev PointTable := Nat → Nat → Option (Point Float)

/-- The table after a write. -/
def PointTable.write (t : PointTable) (w : PointWrite) : PointTable := fun j i =>
  if w.curve = j ∧ w.sample = i then some w.point else t j i

/-- A table in which nothing was written yet, after some writes. -/
def PointTable.ofWrites (ws : List PointWrite) : PointTable :=
  ws.foldl write fun _ _ => none

/-- The value that stands above a sample. -/
def Curve.value (p : Point Float) : ComplexNumber Float := ⟨p.y, p.z⟩

/-- The results read back from the curves, a row for each sample. -/
def Curves.valueRows (c : Curves) : List (List (ComplexNumber Float)) :=
  (List.range c.sampleCount).map fun i => (entriesAt c.curves i).map Curve.value

/-- How often a place is written. -/
def writeCount (ws : List PointWrite) (j i : Nat) : Nat :=
  ws.countP fun w => w.curve = j ∧ w.sample = i

theorem fillTable_eq {curves sample : Nat} (hlen : results.length = samples.length) :
    fillTable curves sample samples results =
      match firstMisfit? curves sample results with
      | some e => .error e.toCurveError
      | none => .ok (tableWrites sample samples results) := by
  induction samples generalizing results sample with
  | nil =>
    obtain rfl := List.length_eq_zero_iff.mp hlen
    rfl
  | cons x xs ih =>
    cases results with
    | nil => cases hlen
    | cons row rest =>
      rw [fillTable, firstMisfit?, ih (Nat.succ.inj hlen), ite_not]
      split
      · cases firstMisfit? curves (sample + 1) rest <;> rfl
      · rfl

/-! ### Every place is written once -/

theorem writeCount_append (ws us : List PointWrite) (j i : Nat) :
    writeCount (ws ++ us) j i = writeCount ws j i + writeCount us j i :=
  List.countP_append

theorem writeCount_rowWrites (sample curve : Nat) (x : Float) (row : List (ComplexNumber Float))
    (j i : Nat) : writeCount (rowWrites sample curve x row) j i =
      if i = sample ∧ curve ≤ j ∧ j < curve + row.length then 1 else 0 := by
  induction row generalizing curve with
  | nil =>
    rw [if_neg (by rw [List.length_nil]; omega)]
    rfl
  | cons z rest ih =>
    have hcons : writeCount (rowWrites sample curve x (z :: rest)) j i =
        writeCount (rowWrites sample (curve + 1) x rest) j i +
          if curve = j ∧ sample = i then 1 else 0 := by
      rw [rowWrites, writeCount, List.countP_cons]
      simp only [decide_eq_true_eq]
      rfl
    rw [hcons, ih, List.length_cons]
    grind

/-- **Every place is written once**, and no other. -/
theorem writeCount_tableWrites {curves : Nat} (hlen : results.length = samples.length)
    (h : ∀ row ∈ results, row.length = curves) (sample j i : Nat) :
    writeCount (tableWrites sample samples results) j i =
      if j < curves ∧ sample ≤ i ∧ i < sample + samples.length then 1 else 0 := by
  induction samples generalizing results sample with
  | nil =>
    rw [if_neg (by rw [List.length_nil]; omega)]
    cases results <;> rfl
  | cons x xs ih =>
    cases results with
    | nil => cases hlen
    | cons row rest =>
      obtain ⟨hrow, hrest⟩ := List.forall_mem_cons.mp h
      rw [tableWrites, writeCount_append, writeCount_rowWrites, ih (Nat.succ.inj hlen) hrest, hrow,
        List.length_cons]
      grind

/-! ### What the table holds -/

/-- The point of a curve at a sample. -/
def pointAt (samples : List Float) (results : List (List (ComplexNumber Float))) (j i : Nat) :
    Option (Point Float) :=
  samples[i]?.bind fun x => results[i]?.bind fun row => row[j]?.map (Curve.point x)

theorem foldl_rowWrites (t : PointTable) (sample curve : Nat) (x : Float)
    (row : List (ComplexNumber Float)) (j i : Nat) :
    (rowWrites sample curve x row).foldl PointTable.write t j i =
      if i = sample ∧ curve ≤ j then (row[j - curve]?.map (Curve.point x)).or (t j i)
      else t j i := by
  induction row generalizing t curve with
  | nil =>
    split <;> rfl
  | cons z rest ih =>
    have hwrite : t.write ⟨curve, sample, Curve.point x z⟩ j i =
        if curve = j ∧ sample = i then some (Curve.point x z) else t j i := rfl
    rw [rowWrites, List.foldl_cons, ih, hwrite]
    rcases Nat.lt_trichotomy curve j with hlt | rfl | hgt
    · obtain ⟨k, rfl⟩ := Nat.exists_eq_add_of_lt hlt
      have hk : curve + k + 1 - curve = k + 1 := by omega
      have hk' : curve + k + 1 - (curve + 1) = k := by omega
      have hne : ¬(curve = curve + k + 1 ∧ sample = i) := by omega
      rw [hk, hk', List.getElem?_cons_succ, if_neg hne]
      exact ite_congr (propext (by omega)) (fun _ => rfl) fun _ => rfl
    · have hne : ¬(i = sample ∧ curve + 1 ≤ curve) := by omega
      rw [Nat.sub_self, List.getElem?_cons_zero, if_neg hne]
      exact ite_congr (propext (by omega)) (fun _ => rfl) fun _ => rfl
    · have hne : ¬(i = sample ∧ curve + 1 ≤ j) := by omega
      have hne' : ¬(curve = j ∧ sample = i) := by omega
      have hne'' : ¬(i = sample ∧ curve ≤ j) := by omega
      rw [if_neg hne, if_neg hne', if_neg hne'']

theorem foldl_tableWrites (t : PointTable) (sample j i : Nat) :
    (tableWrites sample samples results).foldl PointTable.write t j i =
      if sample ≤ i then (pointAt samples results j (i - sample)).or (t j i) else t j i := by
  induction samples generalizing results sample t with
  | nil => split <;> rfl
  | cons x xs ih =>
    cases results with
    | nil =>
      have hnone : pointAt (x :: xs) [] j (i - sample) = none := by simp [pointAt]
      rw [hnone, Option.none_or, ite_self]
      rfl
    | cons row rest =>
      rw [tableWrites, List.foldl_append, ih, foldl_rowWrites]
      rcases Nat.lt_trichotomy sample i with hlt | rfl | hgt
      · obtain ⟨k, rfl⟩ := Nat.exists_eq_add_of_lt hlt
        have hk : sample + k + 1 - sample = k + 1 := by omega
        have hk' : sample + k + 1 - (sample + 1) = k := by omega
        rw [hk, hk', if_pos (by omega), if_neg (by omega), if_pos (by omega)]
        rfl
      · rw [if_neg (by omega), if_pos ⟨rfl, Nat.zero_le j⟩, if_pos (Nat.le_refl _), Nat.sub_self]
        rfl
      · rw [if_neg (by omega), if_neg (by omega), if_neg (by omega)]

/-- The table holds the points. -/
theorem ofWrites_tableWrites (j i : Nat) :
    PointTable.ofWrites (tableWrites 0 samples results) j i = pointAt samples results j i := by
  rw [PointTable.ofWrites, foldl_tableWrites, if_pos (Nat.zero_le i), Nat.sub_zero, Option.or_none]

/-! ### What the curves hold -/

/-- The curves through results in shape. -/
def curvesThrough (samples : List Float) (results : List (List (ComplexNumber Float))) : Curves :=
  ⟨samples.length, (List.range (outputCount results)).map
    (entriesAt (samples.zipWith (fun x row => row.map (Curve.point x)) results))⟩

/-- The curves are found or not as the check of the shape says. -/
theorem curvePoints_eq (hlen : results.length = samples.length) :
    curvePoints samples results =
      match checkShape results with
      | .error e => .error e.toCurveError
      | .ok () => .ok (curvesThrough samples results) := by
  rw [curvePoints, if_neg fun hne => hne hlen, pointRows_eq hlen, checkShape]
  cases firstMisfit? (outputCount results) 0 results <;> rfl

theorem checkShape_eq_error {β : Type} {rows : List (List β)} {e : ShapeError}
    (h : checkShape rows = .error e) : firstMisfit? (outputCount rows) 0 rows = some e := by
  rw [checkShape] at h
  split at h
  · next he => exact he.trans (congrArg some (Except.error.inj h))
  · cases h

/-- When curves are found, and which. -/
theorem curvePoints_eq_ok_iff {c : Curves} : curvePoints samples results = .ok c ↔
    results.length = samples.length ∧ checkShape results = .ok () ∧
      c = curvesThrough samples results := by
  by_cases hlen : results.length = samples.length
  · rw [curvePoints_eq hlen]
    cases hcheck : checkShape results with
    | error e => simp
    | ok u => simp [hlen, eq_comm]
  · rw [curvePoints, if_pos hlen]
    simp [hlen]

section Curves

variable (hlen : results.length = samples.length)
  (h : ∀ row ∈ results, row.length = outputCount results)

include hlen h

omit hlen in
/-- What stands at a place of the curves. -/
theorem getElem?_curves (j i : Nat) :
    ((curvesThrough samples results).curves[j]?.bind (·[i]?)) = pointAt samples results j i := by
  have hpoint (k : Nat) : (samples.zipWith (fun x row => row.map (Curve.point x)) results)[k]? =
      samples[k]?.bind fun x => results[k]?.map fun row => row.map (Curve.point x) := by
    rw [List.getElem?_zipWith]
    cases samples[k]? <;> cases results[k]? <;> rfl
  rw [curvesThrough, List.getElem?_map]
  by_cases hj : j < outputCount results
  · have hplace : ∀ row ∈ samples.zipWith (fun x row => row.map (Curve.point x)) results,
        j < row.length := by
      intro row hrow
      obtain ⟨k, hk⟩ := List.mem_iff_getElem?.mp hrow
      rw [hpoint] at hk
      obtain ⟨x, -, hx⟩ := Option.bind_eq_some_iff.mp hk
      obtain ⟨values, hvalues, rfl⟩ := Option.map_eq_some_iff.mp hx
      rw [List.length_map, h values (List.mem_of_getElem? hvalues)]
      exact hj
    rw [List.getElem?_range hj, Option.map_some, Option.bind_some, getElem?_entriesAt hplace, hpoint,
      pointAt]
    cases samples[i]? with
    | none => rfl
    | some x =>
      cases results[i]? with
      | none => rfl
      | some row => exact List.getElem?_map
  · rw [List.getElem?_eq_none (by rw [List.length_range]; omega), pointAt]
    cases samples[i]? with
    | none => rfl
    | some x =>
      cases hrow : results[i]? with
      | none => rfl
      | some row =>
        have hlength := h row (List.mem_of_getElem? hrow)
        rw [Option.bind_some, Option.bind_some, List.getElem?_eq_none (by omega)]
        rfl

/-- As many curves as values in a row, each as long as there are samples. -/
theorem length_curves : (curvesThrough samples results).curves.length = outputCount results ∧
    ∀ curve ∈ (curvesThrough samples results).curves, curve.length = samples.length := by
  obtain ⟨c, hc, -, hcount, hlength, -⟩ := curvePoints_eq_ok hlen h
  rw [curvePoints_eq hlen, checkShape_eq_ok_iff.mpr h] at hc
  obtain rfl := Except.ok.inj hc
  exact ⟨hcount, hlength⟩

/-- Every curve goes over the samples. -/
theorem map_x_curve {curve : List (Point Float)}
    (hcurve : curve ∈ (curvesThrough samples results).curves) : curve.map (·.x) = samples := by
  obtain ⟨hcount, hlength⟩ := length_curves hlen h
  obtain ⟨j, hj, hget⟩ := List.mem_iff_getElem.mp hcurve
  refine List.ext_getElem? fun i => ?_
  have hpoint : curve[i]? = pointAt samples results j i := by
    rw [← getElem?_curves h, List.getElem?_eq_getElem hj, hget]
    rfl
  rw [List.getElem?_map, hpoint, pointAt]
  cases hsample : samples[i]? with
  | none => rfl
  | some x =>
    have hi : i < results.length := hlen.symm ▸ (List.getElem?_eq_some_iff.mp hsample).1
    have hrow := h _ (List.getElem_mem hi)
    rw [Option.bind_some, List.getElem?_eq_getElem hi, Option.bind_some,
      List.getElem?_eq_getElem (by omega)]
    rfl

/-- The results can be read back from the curves. -/
theorem valueRows_curves : (curvesThrough samples results).valueRows = results := by
  obtain ⟨-, hlength⟩ := length_curves hlen h
  refine List.ext_getElem? fun i => ?_
  rw [Curves.valueRows, List.getElem?_map]
  by_cases hi : i < samples.length
  · have hi' : i < results.length := hlen.symm ▸ hi
    have hrange : (List.range (curvesThrough samples results).sampleCount)[i]? = some i :=
      List.getElem?_range hi
    rw [hrange, Option.map_some, List.getElem?_eq_getElem hi']
    congr 1
    refine List.ext_getElem? fun j => ?_
    rw [List.getElem?_map, getElem?_entriesAt fun curve hcurve => (hlength curve hcurve).symm ▸ hi,
      getElem?_curves h, pointAt, List.getElem?_eq_getElem hi, List.getElem?_eq_getElem hi',
      Option.bind_some, Option.bind_some, Option.map_map]
    exact congrFun Option.map_id _
  · have hrange : (List.range (curvesThrough samples results).sampleCount)[i]? = none :=
      List.getElem?_eq_none (by rw [List.length_range]; exact Nat.le_of_not_lt hi)
    rw [hrange, List.getElem?_eq_none (by omega)]
    rfl

end Curves

/-- **Curves are a table that is filled without loss.**  There are curves through the results at the
samples if there are as many rows as samples and the rows pass the check of the shape.  If only the
check fails, the same row is reported, which is the first one that is not as long as row 0.  Curves
that are found make a table that is written place by place, each exactly once, and both the samples
and the results can be read back from it. -/
theorem curvePoints_fills_table (samples : List Float) (results : List (List (ComplexNumber Float))) :
    ((∃ c, curvePoints samples results = .ok c) ↔
      results.length = samples.length ∧ checkShape results = .ok ()) ∧
    (∀ err, results.length = samples.length → curvePoints samples results = .error err →
      ∃ before row after, results = before ++ row :: after ∧
        (∀ r ∈ before, r.length = outputCount results) ∧ row.length ≠ outputCount results ∧
        checkShape results = .error ⟨outputCount results, row.length, before.length⟩ ∧
        fillTable (outputCount results) 0 samples results = .error err ∧
        err = .rowMismatch before.length row.length (outputCount results)) ∧
    ∀ c, curvePoints samples results = .ok c →
      (c.sampleCount = samples.length ∧ c.curves.length = outputCount results ∧
        ∀ curve ∈ c.curves, curve.length = samples.length) ∧
      (∃ ws, fillTable (outputCount results) 0 samples results = .ok ws ∧
        (∀ j i, writeCount ws j i =
          if j < outputCount results ∧ i < samples.length then 1 else 0) ∧
        ∀ j i, PointTable.ofWrites ws j i = c.curves[j]?.bind (·[i]?)) ∧
      (∀ curve ∈ c.curves, curve.map (·.x) = samples) ∧ c.valueRows = results := by
  refine ⟨⟨?_, ?_⟩, ?_, ?_⟩
  · rintro ⟨c, hc⟩
    obtain ⟨hlen, hcheck, -⟩ := curvePoints_eq_ok_iff.mp hc
    exact ⟨hlen, hcheck⟩
  · rintro ⟨hlen, hcheck⟩
    exact ⟨_, curvePoints_eq_ok_iff.mpr ⟨hlen, hcheck, rfl⟩⟩
  · intro err hlen herr
    rw [curvePoints_eq hlen] at herr
    cases hcheck : checkShape results with
    | ok u =>
      rw [hcheck] at herr
      cases herr
    | error e =>
      rw [hcheck] at herr
      obtain ⟨before, row, after, hsplit, hbefore, hrow, rfl⟩ :=
        firstMisfit?_eq_some (checkShape_eq_error hcheck)
      have hfill : fillTable (outputCount results) 0 samples results = _ := fillTable_eq hlen
      rw [checkShape_eq_error hcheck] at hfill
      rw [Nat.zero_add] at hfill herr
      obtain rfl := Except.error.inj herr
      exact ⟨before, row, after, hsplit, hbefore, hrow, by rw [Nat.zero_add], hfill, rfl⟩
  · intro c hc
    obtain ⟨hlen, hcheck, rfl⟩ := curvePoints_eq_ok_iff.mp hc
    have h := checkShape_eq_ok_iff.mp hcheck
    have hmisfit : firstMisfit? (outputCount results) 0 results = none :=
      firstMisfit?_eq_none_iff.mpr h
    refine ⟨⟨rfl, length_curves hlen h⟩, ⟨tableWrites 0 samples results, ?_, fun j i => ?_,
      fun j i => ?_⟩, fun curve => map_x_curve hlen h, valueRows_curves hlen h⟩
    · rw [fillTable_eq hlen, hmisfit]
    · rw [writeCount_tableWrites hlen h, Nat.zero_add]
      exact ite_congr (propext (by omega)) (fun _ => rfl) fun _ => rfl
    · rw [ofWrites_tableWrites, getElem?_curves h]

end Argand
