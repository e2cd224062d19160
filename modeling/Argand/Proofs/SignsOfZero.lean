import Argand.Proofs.Entries
import Argand.Proofs.Simulation

/-!
# Where columns and numbers part

The columns multiply by `-i/2` and `-i` with a negative zero for a real part, the
numbers with a positive one.  That changes nothing but the sign of a zero, in the sine,
the tangent, the inverse sine and the inverse cosine; the next logarithm may then take
the other side of its cut.

## Main definitions

* `ComplexNumber.SinFlipsRe`, `ComplexNumber.SinFlipsIm` — a part of the sine is a zero
  that gets the other sign on columns.
* `ComplexNumber.TurnKeepsZeros l` — no part of `-il` does.
* `ComplexNumber.HidesFlips` — a product does not show which zeros were flipped.
* `UnaryOperation.AgreesAt f z` — what has to hold of `z` for `f` to be the same.
* `Machine.Agrees` — every operand of a function in a run is such a number.

## Main results

* `Kernels.getElem_unary_iff` — **a function is the same on columns if and only if
  `AgreesAt` holds.**
* `Batch.map_entry_step_iff`, `Batch.run_entry_iff` — a step, and every intermediate
  result of a run, is the same if and only if `Machine.Agrees` holds.
* `Kernels.agrees_iff` — both, for all operations, operands and programs.
-/

namespace Argand

open Binary64

/-! ### Products with the two constants -/

namespace ComplexNumber

theorem opposite_zero : Opposite (0 : Float) (-0 : Float) := ⟨.positive, rfl, rfl⟩

theorem mul_negative_re_iff (d : ComplexNumber Float) (y : Float) :
    (d.mul (negative y)).re = (d.mul (ofImaginary (-y))).re ↔
      ¬(d.re.isFinite ∧ d.im * -y = 0) := by
  have h := opposite_zero.mul_sub_iff d.re (d.im * -y)
  rw [Binary64.mul_comm 0, Binary64.mul_comm (-0)] at h
  exact eq_comm.trans h

theorem mul_negative_im_iff (d : ComplexNumber Float) (y : Float) :
    (d.mul (negative y)).im = (d.mul (ofImaginary (-y))).im ↔
      ¬(d.im.isFinite ∧ d.re * -y = -0.0) := by
  have h := opposite_zero.mul_add_iff d.im (d.re * -y)
  rw [Binary64.mul_comm 0, Binary64.mul_comm (-0)] at h
  exact eq_comm.trans h

theorem negative_mul_re_iff (l : ComplexNumber Float) (y : Float) :
    ((negative y).mul l).re = ((ofImaginary (-y)).mul l).re ↔
      ¬(l.re.isFinite ∧ -y * l.im = 0) :=
  eq_comm.trans (opposite_zero.mul_sub_iff l.re (-y * l.im))

theorem negative_mul_im_iff (l : ComplexNumber Float) (y : Float) :
    ((negative y).mul l).im = ((ofImaginary (-y)).mul l).im ↔
      ¬(l.im.isFinite ∧ -y * l.re = -0.0) :=
  eq_comm.trans (opposite_zero.add_mul_iff l.im (-y * l.re))

theorem eq_iff {z w : ComplexNumber Float} : z = w ↔ z.re = w.re ∧ z.im = w.im := by
  obtain ⟨zre, zim⟩ := z
  obtain ⟨wre, wim⟩ := w
  exact mk.injEq .. ▸ Iff.rfl

/-! ### Inverse sine and cosine -/

/-- No part of `-il` is a zero that gets the other sign on columns. -/
def TurnKeepsZeros (l : ComplexNumber Float) : Prop :=
  ¬(l.re.isFinite ∧ l.im = -0.0) ∧ ¬(l.im.isFinite ∧ l.re = 0)

/-- `-il` is the same with either constant if its zeros are kept. -/
theorem negative_one_mul_iff (l : ComplexNumber Float) :
    (negative 1).mul l = (ofImaginary (-1)).mul l ↔ l.TurnKeepsZeros := by
  rw [eq_iff, negative_mul_re_iff, negative_mul_im_iff, Binary64.neg_one_mul,
    Binary64.neg_one_mul, neg_eq_zero_iff, neg_eq_negZero_iff, TurnKeepsZeros]

/-! ### Sine -/

/-- The real part of the sine is a zero that gets the other sign on columns. -/
def SinFlipsRe (z : ComplexNumber Float) : Prop :=
  z.expDifference.re.isFinite ∧ z.expDifference.im * -0.5 = 0

/-- The imaginary part of the sine is a zero that gets the other sign on columns. -/
def SinFlipsIm (z : ComplexNumber Float) : Prop :=
  z.expDifference.im.isFinite ∧ z.expDifference.re * -0.5 = -0.0

/-- The sine on columns. -/
def columnSin (z : ComplexNumber Float) : ComplexNumber Float :=
  z.expDifference.mul (negative 0.5)

/-- The sine is the same with either constant if neither part is a flipped zero. -/
theorem columnSin_eq_sin_iff (z : ComplexNumber Float) :
    z.columnSin = z.sin ↔ ¬z.SinFlipsRe ∧ ¬z.SinFlipsIm := by
  rw [eq_iff]
  exact and_congr (mul_negative_re_iff _ _) (mul_negative_im_iff _ _)

/-- The real part is a zero of the other sign, or the same. -/
theorem columnSin_re (z : ComplexNumber Float) :
    z.SinFlipsRe ∧ Opposite z.sin.re z.columnSin.re ∨
      ¬z.SinFlipsRe ∧ z.sin.re = z.columnSin.re := by
  by_cases h : z.SinFlipsRe
  · refine .inl ⟨h, ?_⟩
    have hzero := (opposite_zero.mul_right h.1).sub_zero h.2
    rw [Binary64.mul_comm 0, Binary64.mul_comm (-0)] at hzero
    exact hzero
  · exact .inr ⟨h, ((mul_negative_re_iff _ _).mpr h).symm⟩

theorem columnSin_im (z : ComplexNumber Float) :
    z.SinFlipsIm ∧ Opposite z.sin.im z.columnSin.im ∨
      ¬z.SinFlipsIm ∧ z.sin.im = z.columnSin.im := by
  by_cases h : z.SinFlipsIm
  · refine .inl ⟨h, ?_⟩
    have hzero := (opposite_zero.mul_right h.1).add_negZero h.2
    rw [Binary64.mul_comm 0, Binary64.mul_comm (-0)] at hzero
    exact hzero
  · exact .inr ⟨h, ((mul_negative_im_iff _ _).mpr h).symm⟩

/-! ### Tangent -/

/-- A product with `u` does not show that zero parts of `s` were flipped. -/
def HidesFlips (flipsRe flipsIm : Prop) (s u : ComplexNumber Float) : Prop :=
  (flipsRe → ¬flipsIm →
    ¬(u.re.isFinite ∧ s.im * u.im = 0) ∧ ¬(u.im.isFinite ∧ s.im * u.re = -0.0)) ∧
  (¬flipsRe → flipsIm →
    ¬(u.im.isFinite ∧ s.re * u.re = -0.0) ∧ ¬(u.re.isFinite ∧ s.re * u.im = -0.0)) ∧
  (flipsRe → flipsIm → ¬(u.re.isFinite ∧ u.im.isFinite))

/-- If both parts are flipped zeros and the other factor is finite, one part of the product
is flipped. -/
theorem mul_ne_of_opposite {s t u : ComplexNumber Float} (hre : Opposite s.re t.re)
    (him : Opposite s.im t.im) (hure : u.re.isFinite) (huim : u.im.isFinite) :
    t.mul u ≠ s.mul u := by
  obtain ⟨a, hsre, htre⟩ := hre
  obtain ⟨b, hsim, htim⟩ := him
  obtain ⟨c, hc⟩ := exists_sign_of_isFinite hure
  obtain ⟨d, hd⟩ := exists_sign_of_isFinite huim
  intro h
  obtain ⟨hmulre, hmulim⟩ := eq_iff.mp h
  rw [mul_re, mul_re, sub_eq, sub_eq, hc hsre, hc htre, hd hsim, hd htim, sub_zero_zero,
    sub_zero_zero, ofForm_zero_inj] at hmulre
  rw [mul_im, mul_im, add_eq, add_eq, hc hsim, hc htim, hd hsre, hd htre, add_zero_zero,
    add_zero_zero, ofForm_zero_inj] at hmulim
  cases a <;> cases b <;> cases c <;> cases d <;> cases hmulre <;> cases hmulim

/-- If both parts are zeros and the other factor is not finite, the product is undefined. -/
theorem mul_eq_undefined {s u : ComplexNumber Float} (hre : ∃ a, form s.re = .zero a)
    (him : ∃ b, form s.im = .zero b) (h : ¬(u.re.isFinite ∧ u.im.isFinite)) :
    s.mul u = undefined := by
  obtain ⟨a, ha⟩ := hre
  obtain ⟨b, hb⟩ := him
  rw [eq_iff, mul_re, mul_im]
  by_cases hu : u.re.isFinite
  · have hnot : ¬u.im.isFinite := fun hu' => h ⟨hu, hu'⟩
    exact ⟨sub_of_notANumber (.inr (form_mul_of_not_isFinite hb hnot)),
      add_of_notANumber (.inr (form_mul_of_not_isFinite ha hnot))⟩
  · exact ⟨sub_of_notANumber (.inl (form_mul_of_not_isFinite ha hu)),
      add_of_notANumber (.inl (form_mul_of_not_isFinite hb hu))⟩

/-- **A product hides flipped zeros exactly if `HidesFlips` says so.** -/
theorem mul_eq_iff_hidesFlips {flipsRe flipsIm : Prop} {s t u : ComplexNumber Float}
    (hre : flipsRe ∧ Opposite s.re t.re ∨ ¬flipsRe ∧ s.re = t.re)
    (him : flipsIm ∧ Opposite s.im t.im ∨ ¬flipsIm ∧ s.im = t.im) :
    t.mul u = s.mul u ↔ HidesFlips flipsRe flipsIm s u := by
  rcases hre with ⟨hflipRe, hre⟩ | ⟨hkeepRe, hre⟩ <;>
    rcases him with ⟨hflipIm, him⟩ | ⟨hkeepIm, him⟩
  · simp only [HidesFlips, hflipRe, hflipIm, not_true_eq_false, false_implies, implies_true,
      true_implies, true_and]
    constructor
    · intro h hfinite
      exact mul_ne_of_opposite hre him hfinite.1 hfinite.2 h
    · intro h
      obtain ⟨a, hsre, htre⟩ := hre
      obtain ⟨b, hsim, htim⟩ := him
      rw [mul_eq_undefined ⟨a, hsre⟩ ⟨b, hsim⟩ h, mul_eq_undefined ⟨_, htre⟩ ⟨_, htim⟩ h]
  · simp only [HidesFlips, hflipRe, hkeepIm, not_true_eq_false, false_implies, implies_true,
      true_implies, and_true, not_false_eq_true]
    rw [eq_iff, mul_re, mul_re, mul_im, mul_im, ← him]
    exact and_congr (eq_comm.trans (hre.mul_sub_iff _ _)) (eq_comm.trans (hre.add_mul_iff _ _))
  · simp only [HidesFlips, hkeepRe, hflipIm, not_true_eq_false, false_implies, implies_true,
      true_implies, and_true, true_and, not_false_eq_true]
    rw [eq_iff, mul_re, mul_re, mul_im, mul_im, ← hre]
    exact and_congr (eq_comm.trans (him.sub_mul_iff _ _)) (eq_comm.trans (him.mul_add_iff _ _))
  · simp only [HidesFlips, hkeepRe, hkeepIm, false_implies, implies_true,
      and_true, iff_true]
    rw [eq_iff, mul_re, mul_re, mul_im, mul_im, ← hre, ← him]
    exact ⟨rfl, rfl⟩

/-- The tangent on columns is the tangent if nothing is divided, or if the quotient does
not show which zeros of the sine were flipped. -/
theorem columnSin_div_cos_eq_tan_iff (z : ComplexNumber Float) :
    z.columnSin.div z.cos = z.tan ↔
      (RealArithmetic.isZero z.cos.radius = true ∨
        HidesFlips z.SinFlipsRe z.SinFlipsIm z.sin (z.cos.raise (ofReal (-1)))) := by
  have htan : z.tan = z.sin.div z.cos := rfl
  rw [htan, div, div]
  by_cases hzero : RealArithmetic.isZero z.cos.radius = true
  · simp [hzero]
  · rw [if_neg hzero, if_neg hzero, or_iff_right hzero]
    exact mul_eq_iff_hidesFlips z.columnSin_re z.columnSin_im

end ComplexNumber

/-! ### Functions on columns -/

namespace UnaryOperation

open ComplexNumber

/-- What has to hold of an operand for a function to be the same on columns. -/
def AgreesAt : UnaryOperation → ComplexNumber Float → Prop
  | .sin, z => ¬z.SinFlipsRe ∧ ¬z.SinFlipsIm
  | .tan, z => RealArithmetic.isZero z.cos.radius = true ∨
      HidesFlips z.SinFlipsRe z.SinFlipsIm z.sin (z.cos.raise (ofReal (-1)))
  | .asin, z => z.asinArgument.ln.TurnKeepsZeros
  | .acos, z => z.acosArgument.ln.TurnKeepsZeros
  | _, _ => True

end UnaryOperation

namespace Kernels

variable {n : Nat} {sums : Column.Sums Float n}

/-- The operators are the same on columns. -/
theorem getElem_binary (hsums : sums.ByParts) (f : BinaryOperation)
    (z w : Column (ComplexNumber Float) n) (j : Nat) (hj : j < n) :
    ((Kernels.ofSums sums).binary f z w)[j] = f.eval z[j] w[j] := by
  cases f with
  | add => exact hsums.add z w j hj
  | sub => exact hsums.sub z w j hj
  | mul => exact Column.getElem_mul z w j hj
  | div => exact Column.getElem_div z w j hj
  | pow => exact Column.getElem_raise z w j hj

/-- **A function is the same on columns if and only if its operand satisfies
`AgreesAt`.** -/
theorem getElem_unary_iff (hsums : sums.ByParts) (f : UnaryOperation)
    (z : Column (ComplexNumber Float) n) (j : Nat) (hj : j < n) :
    ((Kernels.ofSums sums).unary f z)[j] = f.eval z[j] ↔ f.AgreesAt z[j] := by
  cases f with
  | neg => exact iff_of_true (Column.getElem_neg z j hj) trivial
  | ln => exact iff_of_true (Column.getElem_ln z j hj) trivial
  | exp => exact iff_of_true (Column.getElem_exp z j hj) trivial
  | sqrt => exact iff_of_true (Column.getElem_sqrt z j hj) trivial
  | abs => exact iff_of_true (Column.getElem_abs z j hj) trivial
  | cos => exact iff_of_true (Column.getElem_cos z j hj hsums) trivial
  | atan => exact iff_of_true (Column.getElem_atan z j hj hsums) trivial
  | sin =>
    have hsin : ((Kernels.ofSums sums).unary .sin z)[j] = z[j].columnSin :=
      Column.getElem_sin z j hj hsums
    rw [hsin]
    exact ComplexNumber.columnSin_eq_sin_iff z[j]
  | tan =>
    have htan : ((Kernels.ofSums sums).unary .tan z)[j] = z[j].columnSin.div z[j].cos :=
      Column.getElem_tan z j hj hsums
    rw [htan]
    exact ComplexNumber.columnSin_div_cos_eq_tan_iff z[j]
  | asin =>
    have hasin : ((Kernels.ofSums sums).unary .asin z)[j] =
        (ComplexNumber.negative 1).mul z[j].asinArgument.ln :=
      Column.getElem_asin z j hj hsums
    rw [hasin]
    exact ComplexNumber.negative_one_mul_iff z[j].asinArgument.ln
  | acos =>
    have hacos : ((Kernels.ofSums sums).unary .acos z)[j] =
        (ComplexNumber.negative 1).mul z[j].acosArgument.ln :=
      Column.getElem_acos z j hj hsums
    rw [hacos]
    exact ComplexNumber.negative_one_mul_iff z[j].acosArgument.ln

end Kernels

/-! ### Runs -/

namespace Machine

/-- If the token is a function, it agrees at the value on top. -/
def AgreesOn (m : Machine) (t : Token) : Prop :=
  ∀ f, t.kind = .operation (.unary f) → ∀ z ∈ m.stack.items.head?, f.AgreesAt z

/-- Each function in a run agrees at the value it is applied to. -/
def Agrees (resolve : Resolver) (x : ComplexNumber Float) (m : Machine) : List Token → Prop
  | [] => True
  | t :: rest => m.AgreesOn t ∧ ∀ m', m.step resolve x t = .ok m' → m'.Agrees resolve x rest

end Machine

namespace Batch

variable {n : Nat} {sums : Column.Sums Float n}

theorem run_singleton (kernels : Kernels n) (resolve : Resolver)
    (xs : Column (ComplexNumber Float) n) (b : Batch n) (t : Token) :
    b.run kernels resolve xs [t] = b.step kernels resolve xs t := by
  rw [run]
  cases b.step kernels resolve xs t <;> rfl

/-- A function on the column on top is the function on its entry if it agrees there. -/
theorem map_entry_apply_unary_iff (hsums : sums.ByParts) (b : Batch n) (f : UnaryOperation)
    (line : Int) (j : Nat) (hj : j < n) :
    (b.apply (.ofSums sums) (.unary f) line).map (·.entry j hj) =
        ((b.entry j hj).stack.apply (.unary f) line).map
          (fun stack => { b.entry j hj with stack }) ↔
      ∀ z ∈ (b.entry j hj).stack.items.head?, f.AgreesAt z := by
  obtain ⟨columns, assigned⟩ := b
  cases columns with
  | nil => exact iff_of_true rfl fun z hz => absurd hz (by simp [entry])
  | cons c cs =>
    have hentry := Kernels.getElem_unary_iff hsums f c j hj
    simpa [apply, Stack.apply, entry, Except.map] using hentry

/-- **A batch makes the step of the machine if and only if the machine agrees on it.** -/
theorem map_entry_step_iff (hsums : sums.ByParts) (resolve : Resolver)
    (xs : Column (ComplexNumber Float) n) (b : Batch n) (t : Token) (j : Nat) (hj : j < n) :
    (b.step (.ofSums sums) resolve xs t).map (·.entry j hj) = (b.entry j hj).step resolve xs[j] t ↔
      (b.entry j hj).AgreesOn t := by
  by_cases hunary : ∃ f, t.kind = .operation (.unary f)
  · obtain ⟨f, hf⟩ := hunary
    have happly := map_entry_apply_unary_iff hsums b f t.line j hj
    have hon : (b.entry j hj).AgreesOn t ↔
        ∀ z ∈ (b.entry j hj).stack.items.head?, f.AgreesAt z := by
      simp [Machine.AgreesOn, hf]
    rw [hon, ← happly, step, Machine.step, hf]
    dsimp only
    cases (b.entry j hj).stack.apply (.unary f) t.line <;> rfl
  · -- everything else is carried out entry by entry
    have hlifts : ∀ op, t.kind = .operation op → (Kernels.ofSums sums).Lifts op := by
      intro op hop
      cases op with
      | unary f => exact absurd ⟨f, hop⟩ hunary
      | binary f => exact Kernels.getElem_binary hsums f
    refine iff_of_true (map_entry_step resolve xs b t hlifts j hj) ?_
    intro f hf
    exact absurd ⟨f, hf⟩ hunary

/-- **All results on the way are the same if and only if each function agrees.** -/
theorem run_entry_iff (hsums : sums.ByParts) (resolve : Resolver)
    (xs : Column (ComplexNumber Float) n) (b : Batch n) (tokens : List Token) (j : Nat)
    (hj : j < n) :
    (∀ k, (b.run (.ofSums sums) resolve xs (tokens.take k)).map (·.entry j hj) =
        (b.entry j hj).run resolve xs[j] (tokens.take k)) ↔
      (b.entry j hj).Agrees resolve xs[j] tokens := by
  induction tokens generalizing b with
  | nil =>
    refine iff_of_true (fun k => ?_) trivial
    rw [List.take_nil]
    rfl
  | cons t rest ih =>
    have hstep := map_entry_step_iff hsums resolve xs b t j hj
    constructor
    · intro h
      have hone : (b.step (.ofSums sums) resolve xs t).map (·.entry j hj) =
          (b.entry j hj).step resolve xs[j] t := by
        have h1 := h 1
        rw [List.take_succ_cons, List.take_zero, run_singleton, Machine.run_singleton] at h1
        exact h1
      refine ⟨hstep.mp hone, fun m' hm' => ?_⟩
      rw [← hone] at hm'
      cases hb : b.step (.ofSums sums) resolve xs t with
      | error e => rw [hb] at hm'; exact absurd hm' (by simp [Except.map])
      | ok b' =>
        rw [hb] at hm' hone
        obtain rfl := Except.ok.inj hm'
        refine (ih b').mp fun k => ?_
        have hk := h (k + 1)
        rw [List.take_succ_cons, run, Machine.run, hb, ← hone] at hk
        exact hk
    · rintro ⟨hon, hrest⟩ k
      have hone := hstep.mpr hon
      cases k with
      | zero => rfl
      | succ k =>
        rw [List.take_succ_cons, run, Machine.run, ← hone]
        rw [← hone] at hrest
        cases hb : b.step (.ofSums sums) resolve xs t with
        | error e => rfl
        | ok b' =>
          rw [hb] at hrest
          exact (ih b').mpr (hrest _ rfl) k

end Batch

namespace Column

/-- Sums and differences entry by entry. -/
def Sums.entrywise (n : Nat) : Sums Float n where
  add := Vector.zipWith .add
  sub := Vector.zipWith .sub

theorem Sums.entrywise_byParts (n : Nat) : (Sums.entrywise n).ByParts where
  add _ _ _ hj := Vector.getElem_zipWith hj
  sub _ _ _ hj := Vector.getElem_zipWith hj

end Column

namespace Kernels

/-- **Where columns and numbers agree.**  If columns are added and subtracted entry by
entry, then the operators are the same on columns; a function is the same at an operand
if and only if it agrees there; and all results on the way through a program are the
same if and only if each of its functions agrees at the value it is applied to. -/
theorem agrees_iff {n : Nat} (sums : Column.Sums Float n) (hsums : sums.ByParts) :
    (∀ (f : BinaryOperation) (z w : Column (ComplexNumber Float) n) (j : Nat) (hj : j < n),
      ((Kernels.ofSums sums).binary f z w)[j] = f.eval z[j] w[j]) ∧
    (∀ (f : UnaryOperation) (z : Column (ComplexNumber Float) n) (j : Nat) (hj : j < n),
      ((Kernels.ofSums sums).unary f z)[j] = f.eval z[j] ↔ f.AgreesAt z[j]) ∧
    (∀ (p : Program) (resolve : Resolver) (xs : Column (ComplexNumber Float) n) (j : Nat)
        (hj : j < n),
      (∀ k, (Batch.start.run (.ofSums sums) resolve xs (p.tokens.take k)).map (·.entry j hj) =
          Machine.start.run resolve xs[j] (p.tokens.take k)) ↔
        Machine.start.Agrees resolve xs[j] p.tokens) := by
  refine ⟨getElem_binary hsums, getElem_unary_iff hsums, ?_⟩
  intro p resolve xs j hj
  have hrun := Batch.run_entry_iff hsums resolve xs .start p.tokens j hj
  rw [Batch.entry_start] at hrun
  exact hrun

/-- Columns and numbers do not agree on the sine at the origin: its imaginary part is a
negative zero on columns. -/
theorem agrees_iff_sin_origin :
    let z : Column (ComplexNumber Float) 1 := Column.constant 1 ⟨0, 0⟩
    (Column.Sums.entrywise 1).ByParts ∧
    ((Kernels.ofSums (.entrywise 1)).unary .sin z)[0] = ((Kernels.standard 1).unary .sin z)[0] ∧
    ((Kernels.standard 1).unary .sin z)[0] ≠ UnaryOperation.sin.eval z[0] ∧
    ((Kernels.ofSums (.entrywise 1)).unary .cos z)[0] = UnaryOperation.cos.eval z[0] := by
  intro z
  have hsums := Column.Sums.entrywise_byParts 1
  have hiff := (agrees_iff (Column.Sums.entrywise 1) hsums).2.1
  have hsame : ((Kernels.ofSums (.entrywise 1)).unary .sin z)[0] =
      ((Kernels.standard 1).unary .sin z)[0] := by decide +kernel
  refine ⟨hsums, hsame, ?_, (hiff .cos z 0 Nat.one_pos).mpr trivial⟩
  rw [← hsame]
  intro h
  have hflips : (ComplexNumber.mk 0 0).SinFlipsIm := by
    constructor <;> decide +kernel
  exact ((hiff .sin z 0 Nat.one_pos).mp h).2 hflips

/-- After the sine at the origin, the logarithm of the next result lies on the other side
of its cut: on columns it is `-πi`, at the point it is `πi`. -/
theorem standard_crosses_branch_cut :
    let p : Program := ⟨[⟨.input, 1⟩, ⟨.operation (.unary .sin), 1⟩, ⟨.number ⟨-1, -0.0⟩, 1⟩,
      ⟨.operation (.binary .add), 1⟩, ⟨.operation (.unary .ln), 1⟩], "ln(sin(x)+(-1))"⟩
    (p.evaluateRows (fun _ => none) [⟨0, 0⟩]).toOption = some (1, [[⟨0, -Binary64.pi⟩]]) ∧
    (p.evaluateAll (fun _ => none) [⟨0, 0⟩]).toOption = some [[⟨0, Binary64.pi⟩]] := by
  decide +kernel

end Kernels

end Argand
