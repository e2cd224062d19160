import Argand.Evaluation.Column
import Argand.Proofs.Doubles

/-!
# Operations on columns, entry by entry

Each operation on columns is worked out with masks and constant columns.  An entry of
the result is the same operation on the entries, except where a constant of the circular
functions has a negative zero in it.

## Main definitions

* `Column.Sums.ByParts` — sums and differences are those of the entries.
* `ComplexNumber.negative y` — the constant `-yi` of the columns; its real part is a
  negative zero.

## Main results

* `Column.getElem_raise`, `Column.getElem_ln`, … — **an entry of the result.**
* `Column.getElem_sin`, `Column.getElem_asin`, … — the same with the other constant.
-/

namespace Argand

namespace ComplexNumber

/-- The constant `-yi` of the columns. -/
def negative (y : Float) : ComplexNumber Float := (ofImaginary y).neg

/-- `e^{iz} - e^{-iz}`, which is `2i sin z`. -/
def expDifference (z : ComplexNumber Float) : ComplexNumber Float :=
  (i.mul z).exp.sub (i.mul z).neg.exp

/-- `iz + √(1 - z²)`, of which the inverse sine takes the logarithm. -/
def asinArgument (z : ComplexNumber Float) : ComplexNumber Float := (i.mul z).add z.coLeg

/-- `z + i √(1 - z²)`, of which the inverse cosine takes the logarithm. -/
def acosArgument (z : ComplexNumber Float) : ComplexNumber Float := z.add (i.mul z.coLeg)

/-- The origin is where the distance is zero. -/
theorem isZero_radius (z : ComplexNumber Float) :
    RealArithmetic.isZero z.radius =
      (RealArithmetic.isZero z.re && RealArithmetic.isZero z.im) :=
  Binary64.hypot_beq_zero z.re z.im

end ComplexNumber

namespace Column

open RealArithmetic

variable {n : Nat} (z w : Column (ComplexNumber Float) n) (j : Nat) (hj : j < n)

/-! ### Building and taking apart -/

@[simp] theorem getElem_constant {β : Type} (b : β) : (constant n b)[j] = b :=
  Vector.getElem_replicate hj

@[simp] theorem getElem_select {β : Type} (mask : Column Bool n) (a b : Column β n) :
    (select mask a b)[j] = if mask[j] then a[j] else b[j] := by
  simp [select]

@[simp] theorem getElem_re : (re z)[j] = z[j].re := by simp [re]

@[simp] theorem getElem_im : (im z)[j] = z[j].im := by simp [im]

@[simp] theorem getElem_ofParts (a b : Column Float n) : (ofParts a b)[j] = ⟨a[j], b[j]⟩ := by
  simp [ofParts]

@[simp] theorem getElem_plus (a b : Column Float n) : (plus a b)[j] = a[j] + b[j] := by
  simp [plus]

@[simp] theorem getElem_minus (a b : Column Float n) : (minus a b)[j] = a[j] - b[j] := by
  simp [minus]

@[simp] theorem getElem_times (a b : Column Float n) : (times a b)[j] = a[j] * b[j] := by
  simp [times]

@[simp] theorem getElem_isZeroMask (a : Column Float n) :
    (isZeroMask a)[j] = isZero a[j] := by
  simp [isZeroMask]

@[simp] theorem getElem_constantReal (x : Float) :
    (constantReal n x)[j] = ComplexNumber.ofReal x :=
  getElem_constant j hj _

@[simp] theorem getElem_constantImaginary (y : Float) :
    (constantImaginary n y)[j] = ComplexNumber.ofImaginary y :=
  getElem_constant j hj _

@[simp] theorem getElem_constantNegImaginary (y : Float) :
    (constantNegImaginary n y)[j] = ComplexNumber.negative y :=
  getElem_constant j hj _

/-! ### Operations on the parts -/

@[simp] theorem getElem_neg : (neg z)[j] = z[j].neg := by simp [neg]

@[simp] theorem getElem_mul : (mul z w)[j] = z[j].mul w[j] := by
  simp [mul, ComplexNumber.mul]

@[simp] theorem getElem_radius : (radius z)[j] = z[j].radius := by
  simp [radius, ComplexNumber.radius_eq_hypot]

/-- A mask on the distance is a test on both parts. -/
@[simp] theorem getElem_angle : (angle z)[j] = z[j].toPolar.angle := by
  simp [angle, ComplexNumber.toPolar, ComplexNumber.isZero_radius]

@[simp] theorem getElem_ofPolar (r t : Column Float n) :
    (ofPolar r t)[j] = ComplexNumber.ofPolar r[j] t[j] := by
  simp [ofPolar, ComplexNumber.ofPolar]

/-! ### Powers, logarithm and exponential -/

@[simp] theorem getElem_raise : (raise z w)[j] = z[j].raise w[j] := by
  simp [raise, ComplexNumber.raise]

@[simp] theorem getElem_div : (div z w)[j] = z[j].div w[j] := by
  simp [div, ComplexNumber.div]

@[simp] theorem getElem_ln : (ln z)[j] = z[j].ln := by
  simp [ln, ComplexNumber.ln]

@[simp] theorem getElem_exp : (exp z)[j] = z[j].exp := by
  simp [exp, ComplexNumber.exp]

@[simp] theorem getElem_sqrt : (sqrt z)[j] = z[j].sqrt := by
  simp [sqrt, ComplexNumber.sqrt]

@[simp] theorem getElem_abs : (abs z)[j] = z[j].abs := by
  simp [abs, ComplexNumber.abs, ComplexNumber.ofReal]

@[simp] theorem getElem_timesI : (timesI z)[j] = ComplexNumber.i.mul z[j] := by
  simp [timesI, ComplexNumber.i]

/-! ### Circular functions -/

/-- Sums and differences of columns are those of the entries. -/
structure Sums.ByParts (sums : Sums Float n) : Prop where
  add : ∀ (z w : Column (ComplexNumber Float) n) (j : Nat) (hj : j < n),
    (sums.add z w)[j] = z[j].add w[j]
  sub : ∀ (z w : Column (ComplexNumber Float) n) (j : Nat) (hj : j < n),
    (sums.sub z w)[j] = z[j].sub w[j]

variable {sums : Sums Float n} (hsums : sums.ByParts)

include hsums

theorem getElem_cos : (cos sums z)[j] = z[j].cos := by
  simp [cos, ComplexNumber.cos, hsums.add]

theorem getElem_coLeg : (coLeg sums z)[j] = z[j].coLeg := by
  simp [coLeg, ComplexNumber.coLeg, hsums.sub]

theorem getElem_atan : (atan sums z)[j] = z[j].atan := by
  simp [atan, ComplexNumber.atan, hsums.add, hsums.sub]

/-- The sine of a column, with a negative zero in the factor. -/
theorem getElem_sin :
    (sin sums z)[j] = z[j].expDifference.mul (ComplexNumber.negative half) := by
  simp [sin, ComplexNumber.expDifference, hsums.sub]

theorem getElem_tan : (tan sums z)[j] =
    (z[j].expDifference.mul (ComplexNumber.negative half)).div z[j].cos := by
  rw [tan, getElem_div, getElem_sin z j hj hsums, getElem_cos z j hj hsums]

theorem getElem_asin :
    (asin sums z)[j] = (ComplexNumber.negative one).mul z[j].asinArgument.ln := by
  simp [asin, ComplexNumber.asinArgument, hsums.add, getElem_coLeg z j hj hsums]

theorem getElem_acos :
    (acos sums z)[j] = (ComplexNumber.negative one).mul z[j].acosArgument.ln := by
  simp [acos, ComplexNumber.acosArgument, hsums.add, getElem_coLeg z j hj hsums]

end Column

end Argand
