import Argand.Proofs.Queues
import Argand.Proofs.RoundedArithmetic

/-!
# The range of a time variable

A time variable starts again at the smaller bound once it has left the greater one.  So it never
comes to lie above its range; and if its step does not go down, it never comes to lie below it
either, as a rounded sum with such a step is not smaller than what it was added to.  A step that goes
down takes it below the smaller bound without anything there to bring it back, unless it comes to a
stand before: because the step is lost in rounding, or because it overflows from the smaller bound.

## Main definitions

* `Variable.place`, `Variable.nextPlace` — the variable at a place, and the place after it.
* `Between a b x` — `x` lies between two bounds, in whatever order they come.
* `Registry.OnlyTicked v n s i` — after edits of which only ticks changed it, `n` of them, a variable
  that was added as `v` stands at position `i`.

## Main results

* `Variable.nextPlace_le_high`, `Variable.low_le_nextPlace` — **what a tick keeps.**
* `Variable.exists_stand` — what goes down for ever comes to a stand.
* `Registry.OnlyTicked.getElem?_eq` — other variables, and edits of them, make no difference.
* `Registry.staysBetween_iff` — which time variables stay in their range.
-/

namespace Argand

open Binary64

/-- Between two bounds, in whatever order they come. -/
def Between (a b x : Float) : Prop := a ≤ x ∧ x ≤ b ∨ b ≤ x ∧ x ≤ a

/-- There are only finitely many doubles. -/
instance finite_float : Finite Float :=
  Finite.of_injective Float.toBits fun _ _ h => eq_of_toNat_toBits (congrArg UInt64.toNat h)

namespace Variable

/-- The variable at another place. -/
def place (v : Variable) (x : Float) : Variable := { v with value := .ofReal x }

/-- The place after a place. -/
def nextPlace (v : Variable) (x : Float) : Float :=
  if v.high < x + v.step || !(x + v.step).isFinite then v.low else x + v.step

/-- A tick moves a time variable to the next place. -/
theorem advance_place {v : Variable} (h : v.kind = .time) (x : Float) :
    (v.place x).advance = v.place (v.nextPlace x) :=
  if_pos h

theorem iterate_advance_place {v : Variable} (h : v.kind = .time) (x : Float) (n : Nat) :
    advance^[n] (v.place x) = v.place (v.nextPlace^[n] x) := by
  induction n generalizing x with
  | zero => rfl
  | succ n ih => rw [Function.iterate_succ_apply, advance_place h, ih, Function.iterate_succ_apply]

/-! ### Places in the range -/

/-- Bounds and step are finite. -/
structure IsFinite (v : Variable) : Prop where
  minimum : v.minimum.isFinite = true
  maximum : v.maximum.isFinite = true
  step : v.step.isFinite = true

/-- A finite place from the smaller bound to the greater one. -/
structure InRange (v : Variable) (x : Float) : Prop where
  finite : x.isFinite = true
  low_le : toRat v.low ≤ toRat x
  le_high : toRat x ≤ toRat v.high

section Range

variable {v : Variable} (hv : v.IsFinite)

include hv

theorem isFinite_low : v.low.isFinite = true := by
  rw [low]
  split
  · exact hv.maximum
  · exact hv.minimum

theorem isFinite_high : v.high.isFinite = true := by
  rw [high]
  split
  · exact hv.minimum
  · exact hv.maximum

theorem toRat_low : toRat v.low = min (toRat v.minimum) (toRat v.maximum) := by
  have hlt := lt_iff_toRat (isNaN_of_isFinite hv.maximum) (isNaN_of_isFinite hv.minimum)
  rw [low]
  split
  · next h => exact (min_eq_right (hlt.mp h).le).symm
  · next h => exact (min_eq_left (not_lt.mp (mt hlt.mpr h))).symm

theorem toRat_high : toRat v.high = max (toRat v.minimum) (toRat v.maximum) := by
  have hlt := lt_iff_toRat (isNaN_of_isFinite hv.maximum) (isNaN_of_isFinite hv.minimum)
  rw [high]
  split
  · next h => exact (max_eq_left (hlt.mp h).le).symm
  · next h => exact (max_eq_right (not_lt.mp (mt hlt.mpr h))).symm

theorem low_le_high : toRat v.low ≤ toRat v.high := by
  rw [toRat_low hv, toRat_high hv]
  exact min_le_max

theorem inRange_minimum : v.InRange v.minimum := by
  refine ⟨hv.minimum, ?_, ?_⟩
  · rw [toRat_low hv]
    exact min_le_left _ _
  · rw [toRat_high hv]
    exact le_max_left _ _

/-- The range is what lies between the bounds. -/
theorem between_iff_inRange {x : Float} (hx : x.isFinite = true) :
    Between v.minimum v.maximum x ↔ v.InRange x := by
  have hnan := isNaN_of_isFinite hx
  have hmin := isNaN_of_isFinite hv.minimum
  have hmax := isNaN_of_isFinite hv.maximum
  rw [Between, le_iff_toRat hmin hnan, le_iff_toRat hnan hmax, le_iff_toRat hmax hnan,
    le_iff_toRat hnan hmin]
  constructor
  · rintro (⟨h1, h2⟩ | ⟨h1, h2⟩)
    · exact ⟨hx, by rw [toRat_low hv]; exact min_le_of_left_le h1,
        by rw [toRat_high hv]; exact le_max_of_le_right h2⟩
    · exact ⟨hx, by rw [toRat_low hv]; exact min_le_of_right_le h1,
        by rw [toRat_high hv]; exact le_max_of_le_left h2⟩
  · rintro ⟨-, h1, h2⟩
    rw [toRat_low hv] at h1
    rw [toRat_high hv] at h2
    rcases le_total (toRat v.minimum) (toRat v.maximum) with hle | hle
    · rw [min_eq_left hle] at h1
      rw [max_eq_right hle] at h2
      exact .inl ⟨h1, h2⟩
    · rw [min_eq_right hle] at h1
      rw [max_eq_left hle] at h2
      exact .inr ⟨h1, h2⟩

/-! ### What a tick keeps -/

/-- The next place is a step further, if that is a number and not above the range; else it is the
smaller bound. -/
theorem nextPlace_cases {x : Float} (hx : x.isFinite = true) :
    (x + v.step).isFinite = true ∧ toRat (x + v.step) ≤ toRat v.high ∧
        v.nextPlace x = x + v.step ∨
      ((x + v.step).isFinite = true → toRat v.high < toRat (x + v.step)) ∧
        v.nextPlace x = v.low := by
  have hlt := lt_iff_toRat (isNaN_of_isFinite (isFinite_high hv))
    (isNaN_of_alike (alike_add hx hv.step))
  rw [nextPlace]
  split
  · next h =>
    refine .inr ⟨fun hfinite => ?_, rfl⟩
    rw [hfinite, Bool.not_true, Bool.or_false, decide_eq_true_eq] at h
    exact hlt.mp h
  · next h =>
    rw [Bool.or_eq_true, not_or, decide_eq_true_eq, Bool.not_eq_true', Bool.not_eq_false] at h
    exact .inl ⟨h.2, not_lt.mp (mt hlt.mpr h.1), rfl⟩

/-- A tick takes a place to a finite one that is not above the range. -/
theorem nextPlace_le_high {x : Float} (hx : x.isFinite = true) :
    (v.nextPlace x).isFinite = true ∧ toRat (v.nextPlace x) ≤ toRat v.high := by
  rcases nextPlace_cases hv hx with ⟨hfinite, hle, h⟩ | ⟨-, h⟩
  · rw [h]
    exact ⟨hfinite, hle⟩
  · rw [h]
    exact ⟨isFinite_low hv, low_le_high hv⟩

/-- With a step that does not go down, nothing gets below the range. -/
theorem low_le_nextPlace (hstep : 0 ≤ toRat v.step) {x : Float} (hx : v.InRange x) :
    v.InRange (v.nextPlace x) := by
  obtain ⟨hfinite, hle⟩ := nextPlace_le_high hv hx.finite
  refine ⟨hfinite, ?_, hle⟩
  rcases nextPlace_cases hv hx.finite with ⟨-, -, h⟩ | ⟨-, h⟩
  · rw [h]
    refine hx.low_le.trans (le_toRat_of_alike (alike_add hx.finite hv.step) hx.finite ?_)
    exact le_add_of_nonneg_right hstep
  · rw [h]

/-- With a step that goes down, places in the range go down. -/
theorem nextPlace_le (hstep : toRat v.step < 0) {x : Float} (hx : v.InRange x) :
    toRat (v.nextPlace x) ≤ toRat x := by
  rcases nextPlace_cases hv hx.finite with ⟨-, -, h⟩ | ⟨-, h⟩
  · rw [h]
    exact toRat_le_of_alike (alike_add hx.finite hv.step) hx.finite
      (add_le_of_nonpos_right hstep.le)
  · rw [h]
    exact hx.low_le

/-- If the next place has the same value it is the same place: at zero the step is not lost. -/
theorem nextPlace_eq_self (hstep : toRat v.step < 0) {x : Float} (hx : v.InRange x)
    (h : toRat (v.nextPlace x) = toRat x) : v.nextPlace x = x := by
  have hfinite := (nextPlace_le_high hv hx.finite).1
  by_cases h0 : toRat x = 0
  · have hsum := alike_add hx.finite hv.step
    rw [h0, zero_add] at hsum
    have hvalue : toRat (x + v.step) = toRat v.step :=
      (toRat_of_alike hsum).trans (toRat_rounded_toRat hv.step)
    rcases nextPlace_cases hv hx.finite with ⟨-, -, hnext⟩ | ⟨hbeyond, -⟩
    · rw [hnext, hvalue, h0] at h
      exact absurd h hstep.ne
    · have hsumFinite := hsum.isFinite_eq.trans ((rounded_toRat hv.step).isFinite_eq.trans hv.step)
      have habove := hbeyond hsumFinite
      rw [hvalue] at habove
      linarith [hx.le_high]
  · have halike := (alike_iff_toRat (isNaN_of_isFinite hfinite)
      (isNaN_of_isFinite hx.finite)).mpr h
    refine halike.eq_of_not_zero (Bool.eq_false_iff.mpr fun hzero => h0 ?_)
    rw [← h, ← toRat_zero]
    exact (alike_iff_toRat (isNaN_of_isFinite hfinite) rfl).mp (.of_beq hzero)

/-! ### Ticks for ever -/

theorem iterate_nextPlace_le_high {x : Float} (hx : x.isFinite = true)
    (hle : toRat x ≤ toRat v.high) (n : Nat) :
    (v.nextPlace^[n] x).isFinite = true ∧ toRat (v.nextPlace^[n] x) ≤ toRat v.high := by
  induction n with
  | zero => exact ⟨hx, hle⟩
  | succ n ih =>
    rw [Function.iterate_succ_apply']
    exact nextPlace_le_high hv ih.1

theorem inRange_iterate_nextPlace (hstep : 0 ≤ toRat v.step) {x : Float} (hx : v.InRange x)
    (n : Nat) : v.InRange (v.nextPlace^[n] x) := by
  induction n with
  | zero => exact hx
  | succ n ih =>
    rw [Function.iterate_succ_apply']
    exact low_le_nextPlace hv hstep ih

/-- **What goes down in the range for ever comes to a stand**, as there are only finitely many
places. -/
theorem exists_stand (hstep : toRat v.step < 0) {x : Float}
    (hrange : ∀ n, v.InRange (v.nextPlace^[n] x)) :
    ∃ n, v.nextPlace^[n + 1] x = v.nextPlace^[n] x := by
  have hdown : Antitone fun n => toRat (v.nextPlace^[n] x) := by
    refine antitone_nat_of_succ_le fun n => ?_
    rw [Function.iterate_succ_apply']
    exact nextPlace_le hv hstep (hrange n)
  obtain ⟨i, j, hne, heq⟩ := Finite.exists_ne_map_eq_of_infinite fun n => v.nextPlace^[n] x
  -- between two visits of the same place nothing can go down
  have key (i j : Nat) (hlt : i < j) (heq : v.nextPlace^[i] x = v.nextPlace^[j] x) :
      v.nextPlace^[i + 1] x = v.nextPlace^[i] x := by
    have hsame : toRat (v.nextPlace (v.nextPlace^[i] x)) = toRat (v.nextPlace^[i] x) := by
      refine le_antisymm (nextPlace_le hv hstep (hrange i)) ?_
      rw [← Function.iterate_succ_apply' v.nextPlace i x]
      conv_lhs => rw [heq]
      exact hdown hlt
    rw [Function.iterate_succ_apply']
    exact nextPlace_eq_self hv hstep (hrange i) hsame
  rcases Nat.lt_or_gt_of_ne hne with hlt | hgt
  · exact ⟨i, key i j hlt heq⟩
  · exact ⟨j, key j i hgt heq.symm⟩

end Range

/-- Whether places stay in the range for ever can be told from those up to a stand. -/
theorem forall_inRange_iff {v : Variable} (hv : v.IsFinite) :
    (∀ n, v.InRange (v.nextPlace^[n] v.minimum)) ↔ 0 ≤ toRat v.step ∨
      ∃ n, (∀ k ≤ n, v.InRange (v.nextPlace^[k] v.minimum)) ∧
        v.nextPlace^[n + 1] v.minimum = v.nextPlace^[n] v.minimum := by
  constructor
  · intro hrange
    rcases le_or_gt 0 (toRat v.step) with hstep | hstep
    · exact .inl hstep
    · obtain ⟨n, hn⟩ := exists_stand hv hstep hrange
      exact .inr ⟨n, fun k _ => hrange k, hn⟩
  · rintro (hstep | ⟨n, hrange, hstand⟩) k
    · exact inRange_iterate_nextPlace hv hstep (inRange_minimum hv) k
    · rcases Nat.le_total k n with hle | hle
      · exact hrange k hle
      · obtain ⟨m, rfl⟩ := Nat.exists_eq_add_of_le' hle
        rw [Function.iterate_succ_apply'] at hstand
        rw [Function.iterate_add_apply, Function.iterate_fixed hstand]
        exact hrange n (Nat.le_refl n)

end Variable

/-! ### A variable among others -/

namespace Registry

/-- After edits of which only ticks changed it, `n` of them, a variable that was added as `v` stands
at position `i` of the registry.  Other edits may move it to another position. -/
inductive OnlyTicked (v : Variable) : Nat → Registry × Log → Nat → Prop
  | added {r : Registry} {log : Log} {e : Edit} (h : e.added? = some v) :
    OnlyTicked v 0 (attempt (r, log) e).2 r.size
  | ticked {n : Nat} {s : Registry × Log} {i : Nat} (h : OnlyTicked v n s i) :
    OnlyTicked v (n + 1) (attempt s .tick).2 i
  | moved {n : Nat} {s : Registry × Log} {i j : Nat} {e : Edit} (h : OnlyTicked v n s i)
    (he : e ≠ .tick) (hsame : (attempt s e).2.1.entries[j]? = s.1.entries[i]?) :
    OnlyTicked v n (attempt s e).2 j

/-- **Other variables, and edits of them, make no difference.** -/
theorem OnlyTicked.getElem?_eq {v : Variable} {n : Nat} {s : Registry × Log} {i : Nat}
    (h : OnlyTicked v n s i) : s.1.entries[i]? = some (Variable.advance^[n] v) := by
  induction h with
  | @added r log e h =>
    rw [attempt_of_added h]
    exact List.getElem?_concat_length
  | @ticked n s i h ih =>
    have htick : (attempt s .tick).2.1 = s.1.tick := rfl
    rw [htick, tick, List.getElem?_map, ih, Function.iterate_succ_apply']
    rfl
  | moved h he hsame ih => rw [hsame, ih]

/-- Any number of ticks can follow. -/
theorem exists_onlyTicked (v : Variable) (n : Nat) : ∃ s i, OnlyTicked v n s i := by
  induction n with
  | zero => exact ⟨_, _, @OnlyTicked.added v empty .empty (.add v) rfl⟩
  | succ n ih =>
    obtain ⟨s, i, h⟩ := ih
    exact ⟨_, _, h.ticked⟩

/-- **Which time variables stay in their range.**  However often it ticks, a time variable is at a
finite place, and not above its greater bound.  It stays between its bounds if its step does not go
down; otherwise it does so only if it comes to a stand there. -/
theorem staysBetween_iff {name : String} {minimum maximum step : Float} {v : Variable}
    (hadd : (Edit.addTime name minimum maximum step).added? = some v)
    (hmin : minimum.isFinite = true) (hmax : maximum.isFinite = true)
    (hstep : step.isFinite = true) :
    (∀ n s i, OnlyTicked v n s i → ∃ x, s.1.entries[i]? = some { v with value := .ofReal x } ∧
      x.isFinite = true ∧ (x ≤ minimum ∨ x ≤ maximum) ∧ (0 ≤ step → Between minimum maximum x)) ∧
    ((∀ n s i w, OnlyTicked v n s i → s.1.entries[i]? = some w →
        Between minimum maximum w.value.re) ↔
      0 ≤ step ∨ ∃ n, (∀ k ≤ n, Between minimum maximum (Variable.advance^[k] v).value.re) ∧
        Variable.advance^[n + 1] v = Variable.advance^[n] v) := by
  obtain ⟨hkind, rfl, rfl, rfl, hplace⟩ : v.kind = .time ∧ v.minimum = minimum ∧
      v.maximum = maximum ∧ v.step = step ∧ v.place v.minimum = v := by
    cases hadd
    exact ⟨rfl, rfl, rfl, rfl, rfl⟩
  have hv : v.IsFinite := ⟨hmin, hmax, hstep⟩
  have hsign : 0 ≤ v.step ↔ 0 ≤ toRat v.step := by
    rw [le_iff_toRat rfl (isNaN_of_isFinite hstep), toRat_zero]
  have hadvance (n : Nat) : Variable.advance^[n] v = v.place (v.nextPlace^[n] v.minimum) := by
    rw [← Variable.iterate_advance_place hkind, hplace]
  have hstart := Variable.inRange_minimum hv
  have hbelow (n : Nat) := Variable.iterate_nextPlace_le_high hv hstart.finite hstart.le_high n
  have hbetween (n : Nat) : Between v.minimum v.maximum (Variable.advance^[n] v).value.re ↔
      v.InRange (v.nextPlace^[n] v.minimum) := by
    rw [hadvance]
    exact Variable.between_iff_inRange hv (hbelow n).1
  constructor
  · intro n s i h
    refine ⟨v.nextPlace^[n] v.minimum, ?_, (hbelow n).1, ?_, fun h0 => ?_⟩
    · rw [h.getElem?_eq, hadvance]
      rfl
    · have hnan := isNaN_of_isFinite (hbelow n).1
      have hle := (hbelow n).2
      rw [Variable.toRat_high hv, le_max_iff] at hle
      rwa [le_iff_toRat hnan (isNaN_of_isFinite hmin), le_iff_toRat hnan (isNaN_of_isFinite hmax)]
    · rw [Variable.between_iff_inRange hv (hbelow n).1]
      exact Variable.inRange_iterate_nextPlace hv (hsign.mp h0) hstart n
  · have hforall : (∀ n s i w, OnlyTicked v n s i → s.1.entries[i]? = some w →
        Between v.minimum v.maximum w.value.re) ↔ ∀ n, v.InRange (v.nextPlace^[n] v.minimum) := by
      constructor
      · intro h n
        obtain ⟨s, i, hticked⟩ := exists_onlyTicked v n
        exact (hbetween n).mp (h n s i _ hticked hticked.getElem?_eq)
      · intro h n s i w hticked hw
        obtain rfl := Option.some.inj (hticked.getElem?_eq.symm.trans hw)
        exact (hbetween n).mpr (h n)
    have hsame (n : Nat) : Variable.advance^[n + 1] v = Variable.advance^[n] v ↔
        v.nextPlace^[n + 1] v.minimum = v.nextPlace^[n] v.minimum := by
      rw [hadvance, hadvance]
      exact ⟨fun h => congrArg (·.value.re) h, congrArg v.place⟩
    simp only [hforall, Variable.forall_inRange_iff hv, hsign, hbetween, hsame]

/-- Between one and minus one, given in this order, upwards; and from one downwards in steps that are
lost in rounding. -/
theorem staysBetween_upwards_or_still :
    (∀ n s i w, OnlyTicked ⟨"t", .time, .ofReal 1, 1, -1, 0.75⟩ n s i → s.1.entries[i]? = some w →
      Between 1 (-1) w.value.re) ∧
    ∀ n s i w, OnlyTicked ⟨"t", .time, .ofReal 1, 1, 0, -1e-20⟩ n s i →
      s.1.entries[i]? = some w → Between 1 0 w.value.re := by
  constructor
  · have hadd : (Edit.addTime "t" 1 (-1) 0.75).added? =
        some ⟨"t", .time, .ofReal 1, 1, -1, 0.75⟩ := rfl
    exact (staysBetween_iff hadd rfl rfl rfl).2.mpr (.inl (by decide +kernel))
  · have hadd : (Edit.addTime "t" 1 0 (-1e-20)).added? =
        some ⟨"t", .time, .ofReal 1, 1, 0, -1e-20⟩ := rfl
    refine (staysBetween_iff hadd rfl rfl (by decide +kernel)).2.mpr
      (.inr ⟨0, fun k hk => ?_, by decide +kernel⟩)
    obtain rfl := Nat.le_zero.mp hk
    exact .inr (by decide +kernel)

/-- **A time variable can leave its range downwards**: from zero, between zero and one, it goes to
minus a half. -/
theorem not_staysBetween_downwards : ∃ v s i,
    (Edit.addTime "t" 0 1 (-0.5)).added? = some v ∧ OnlyTicked v 1 s i ∧
      s.1.entries[i]? = some { v with value := .ofReal (-0.5) } ∧ ¬Between 0 1 (-0.5) :=
  ⟨_, _, _, rfl, .ticked (@OnlyTicked.added _ standard .empty (.addTime "t" 0 1 (-0.5)) rfl),
    by decide +kernel,
    by rintro (⟨h, -⟩ | ⟨h, -⟩) <;> exact absurd h (by decide +kernel)⟩

end Registry

end Argand
