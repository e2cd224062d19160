import Argand.Operation
import Argand.Proofs.Alike

/-!
# Functions of alike numbers

Complex numbers are alike if their parts are.  Every function takes alike numbers to alike
results, but for the logarithm and the root, which go through the angle of their operand: on
opposite edges of the negative half-axis they have conjugate values.  The inverse circular
functions take logarithms too, but never on the lower edge of the cut.  Among the operators, the
quotient goes through the angle of the divisor and the power through that of the base.

## Main definitions

* `ComplexNumber.Alike z w` — the same up to the signs of zeros.
* `ComplexNumber.SameSide z w` — not on opposite edges of the negative half-axis.
* `ComplexNumber.conj z` — the mirror image below the real axis.

## Main results

* `Alike.cos_eq` — the cosine shows no sign of a zero, so the tangent divides by the same.
* `nonneg_coLeg` — where a part is zero, the other leg has no minus sign.
* `BinaryOperation.eval_alike` — **an operator takes alike operands to alike results**, the
  quotient and the power if the divisors and the bases are on the same side.
* `UnaryOperation.eval_alike` — **a function takes alike operands to alike results**, the
  logarithm and the root if the operands are on the same side.
* `UnaryOperation.eval_lowerEdge` — else their results are conjugate.
-/

namespace Argand

open Binary64

namespace ComplexNumber

/-- The same up to the signs of zeros. -/
structure Alike (z w : ComplexNumber Float) : Prop where
  re : Binary64.Alike z.re w.re
  im : Binary64.Alike z.im w.im

/-- Not on opposite edges of the negative half-axis. -/
def SameSide (z w : ComplexNumber Float) : Prop := ¬(z.re < 0 ∧ Opposite z.im w.im)

/-- The mirror image below the real axis. -/
def conj (z : ComplexNumber Float) : ComplexNumber Float := ⟨z.re, -z.im⟩

theorem eq_of_parts {z w : ComplexNumber Float} (hre : z.re = w.re) (him : z.im = w.im) :
    z = w := by
  obtain ⟨a, b⟩ := z
  obtain ⟨c, d⟩ := w
  obtain rfl : a = c := hre
  obtain rfl : b = d := him
  rfl

theorem zero_ne_negZero : (0 : Float) ≠ -0.0 := by decide

theorem one_ne_negZero : (1 : Float) ≠ -0.0 := by decide

theorem sameSide_of_im_eq {z w : ComplexNumber Float} (h : z.im = w.im) : SameSide z w := by
  rintro ⟨-, s, hz, hw⟩
  rw [h, hw] at hz
  cases s <;> cases hz

/-- The power of a double number, on doubles. -/
theorem raise_eq (base exponent : ComplexNumber Float) :
    base.raise exponent =
      if base.radius == 0 && !exponent.radius == 0 then ofReal 0
      else ofPolar
        (Binary64.exp (exponent.re * Binary64.log base.radius - exponent.im * base.toPolar.angle))
        (exponent.im * Binary64.log base.radius + exponent.re * base.toPolar.angle) := rfl

namespace Alike

variable {z w : ComplexNumber Float}

theorem refl (z : ComplexNumber Float) : Alike z z := ⟨.refl _, .refl _⟩

theorem of_eq (h : z = w) : Alike z w := h ▸ refl z

theorem trans {v : ComplexNumber Float} (h : Alike z w) (h' : Alike w v) : Alike z v :=
  ⟨h.re.trans h'.re, h.im.trans h'.im⟩

/-- Equal numbers are alike. -/
theorem of_beq (h : (z == w) = true) : Alike z w := by
  have hparts : (z.re == w.re && z.im == w.im) = true := h
  rw [Bool.and_eq_true] at hparts
  exact ⟨.of_beq hparts.1, .of_beq hparts.2⟩

/-- Numbers that are alike without being the same have a part that is zero. -/
theorem eq_or_zero (h : Alike z w) : z = w ∨ (z.re == 0) = true ∨ (z.im == 0) = true := by
  rcases h.re with hre | hre
  · rcases h.im with him | him
    · exact .inl (eq_of_parts hre him)
    · exact .inr (.inr him.beq_zero)
  · exact .inr (.inl hre.beq_zero)

/-! ### Arithmetic -/

protected theorem neg (h : Alike z w) : Alike z.neg w.neg := ⟨h.re.neg, h.im.neg⟩

protected theorem add {u v : ComplexNumber Float} (h : Alike z w) (h' : Alike u v) :
    Alike (z.add u) (w.add v) :=
  ⟨h.re.add h'.re, h.im.add h'.im⟩

protected theorem sub {u v : ComplexNumber Float} (h : Alike z w) (h' : Alike u v) :
    Alike (z.sub u) (w.sub v) :=
  ⟨h.re.sub h'.re, h.im.sub h'.im⟩

protected theorem mul {u v : ComplexNumber Float} (h : Alike z w) (h' : Alike u v) :
    Alike (z.mul u) (w.mul v) :=
  ⟨(h.re.mul h'.re).sub (h.im.mul h'.im), (h.im.mul h'.re).add (h.re.mul h'.im)⟩

/-- One and a number show the sign of no zero in their sum and difference. -/
theorem one_add_eq (h : Alike z w) : (ofReal 1).add z = (ofReal 1).add w :=
  eq_of_parts (h.re.add_left_eq one_ne_negZero) (h.im.add_left_eq zero_ne_negZero)

theorem one_sub_eq (h : Alike z w) : (ofReal 1).sub z = (ofReal 1).sub w :=
  eq_of_parts (h.re.sub_left_eq one_ne_negZero) (h.im.sub_left_eq zero_ne_negZero)

/-! ### Polar form -/

theorem radius_eq (h : Alike z w) : z.radius = w.radius := h.re.hypot h.im

theorem ofPolar {a b : Float} (r : Float) (h : Binary64.Alike a b) :
    Alike (ofPolar r a) (ofPolar r b) := by
  refine ⟨.inl ?_, (Binary64.Alike.refl r).mul h.sin⟩
  change r * Binary64.cos a = r * Binary64.cos b
  rw [h.cos]

theorem angle_toPolar (h : Alike z w) (hside : SameSide z w) :
    Binary64.Alike z.toPolar.angle w.toPolar.angle := by
  have hre : (z.re == 0) = (w.re == 0) := h.re.beq_zero_eq
  have him : (z.im == 0) = (w.im == 0) := h.im.beq_zero_eq
  change Binary64.Alike (if (z.re == 0 && z.im == 0) = true then 0 else Binary64.angle z.im z.re)
    (if (w.re == 0 && w.im == 0) = true then 0 else Binary64.angle w.im w.re)
  rw [← hre, ← him]
  split
  · exact .refl _
  · next horigin => exact h.re.angle h.im (Bool.eq_false_iff.mpr horigin) hside

/-! ### Logarithm, power and exponential -/

protected theorem ln (h : Alike z w) (hside : SameSide z w) : Alike z.ln w.ln := by
  refine ⟨.inl ?_, h.angle_toPolar hside⟩
  change Binary64.log z.radius = Binary64.log w.radius
  rw [h.radius_eq]

protected theorem raise (h : Alike z w) (hside : SameSide z w) (exponent : ComplexNumber Float) :
    Alike (z.raise exponent) (w.raise exponent) := by
  have hangle (y : Float) : Binary64.Alike (y * z.toPolar.angle) (y * w.toPolar.angle) :=
    (Binary64.Alike.refl y).mul (h.angle_toPolar hside)
  rw [raise_eq, raise_eq, h.radius_eq]
  split
  · exact refl _
  · rw [((Binary64.Alike.refl _).sub (hangle exponent.im)).exp]
    exact ofPolar _ ((Binary64.Alike.refl _).add (hangle exponent.re))

/-- The exponent of a power may have other signs of zeros. -/
theorem raise_exponent (base : ComplexNumber Float) (h : Alike z w) :
    Alike (base.raise z) (base.raise w) := by
  rw [raise_eq, raise_eq, h.radius_eq]
  split
  · exact refl _
  · rw [((h.re.mul (.refl _)).sub (h.im.mul (.refl _))).exp]
    exact ofPolar _ ((h.im.mul (.refl _)).add (h.re.mul (.refl _)))

protected theorem div {u v : ComplexNumber Float} (h : Alike z w) (h' : Alike u v)
    (hside : SameSide u v) : Alike (z.div u) (w.div v) := by
  rw [div, div, h'.radius_eq]
  split
  · exact refl _
  · exact h.mul (h'.raise hside _)

protected theorem exp (h : Alike z w) : Alike z.exp w.exp := by
  have hexp : RealArithmetic.exp z.re = RealArithmetic.exp w.re := h.re.exp
  rw [exp, exp, hexp]
  exact ofPolar _ h.im

/-! ### Circular functions -/

theorem i_mul (h : Alike z w) : Alike (i.mul z) (i.mul w) := (refl _).mul h

protected theorem sin (h : Alike z w) : Alike z.sin w.sin :=
  (h.i_mul.exp.sub h.i_mul.neg.exp).mul (refl _)

/-- The sum of the exponentials of a number and its negation does not show the signs of
zeros. -/
theorem exp_add_exp_neg (h : Alike z w) : z.exp.add z.neg.exp = w.exp.add w.neg.exp := by
  have hexp : Binary64.exp z.re = Binary64.exp w.re := h.re.exp
  have hexpNeg : Binary64.exp (-z.re) = Binary64.exp (-w.re) := h.re.neg.exp
  refine eq_of_parts ?_ ?_
  · change Binary64.exp z.re * Binary64.cos z.im + Binary64.exp (-z.re) * Binary64.cos (-z.im) =
      Binary64.exp w.re * Binary64.cos w.im + Binary64.exp (-w.re) * Binary64.cos (-w.im)
    rw [hexp, hexpNeg, h.im.cos, h.im.neg.cos]
  · change Binary64.exp z.re * Binary64.sin z.im + Binary64.exp (-z.re) * Binary64.sin (-z.im) =
      Binary64.exp w.re * Binary64.sin w.im + Binary64.exp (-w.re) * Binary64.sin (-w.im)
    rw [hexp, hexpNeg]
    rcases h.im with him | him
    · rw [him]
    · have hcancel := (nonneg_exp w.re).cancel_opposite (nonneg_exp (-w.re)) him
      rcases him.cases with ⟨hz, hw⟩ | ⟨hz, hw⟩
      · rw [hz, hw] at hcancel ⊢
        exact hcancel
      · rw [hz, hw] at hcancel ⊢
        exact hcancel

/-- The cosine does not show the signs of zeros. -/
theorem cos_eq (h : Alike z w) : z.cos = w.cos := by
  rw [cos, cos, h.i_mul.exp_add_exp_neg]

protected theorem tan (h : Alike z w) : Alike z.tan w.tan := by
  rw [tan, tan, h.cos_eq, div, div]
  split
  · exact refl _
  · exact h.sin.mul (refl _)

/-- The other leg does not show the signs of zeros. -/
theorem coLeg_eq (h : Alike z w) : z.coLeg = w.coLeg := by
  have hsub : (ofReal RealArithmetic.one).sub (z.mul z) =
      (ofReal RealArithmetic.one).sub (w.mul w) := (h.mul h).one_sub_eq
  rw [coLeg, coLeg, hsub]

/-- The inverse tangent does not show the signs of zeros. -/
theorem atan_eq (h : Alike z w) : z.atan = w.atan := by
  have hsub : (ofReal RealArithmetic.one).sub (i.mul z) =
      (ofReal RealArithmetic.one).sub (i.mul w) := h.i_mul.one_sub_eq
  have hadd : (ofReal RealArithmetic.one).add (i.mul z) =
      (ofReal RealArithmetic.one).add (i.mul w) := h.i_mul.one_add_eq
  rw [atan, atan, hsub, hadd]

end Alike

/-! ### The other leg at a zero part -/

/-- The angle of a point on the upper edge of the real axis is none or a half turn. -/
theorem angle_upperEdge {s : ComplexNumber Float} (h : s.im = 0 ∨ s.im.isNaN = true) :
    s.toPolar.angle = 0 ∨ s.toPolar.angle = halfTurn ∨ s.toPolar.angle = Binary64.undefined := by
  have hangle : s.toPolar.angle =
      if (s.re == 0 && s.im == 0) = true then 0 else Binary64.angle s.im s.re := rfl
  rw [hangle]
  split
  · exact .inl rfl
  · next horigin =>
    rcases h with him | him
    · rw [him] at horigin ⊢
      cases hnan : s.re.isNaN with
      | true => exact .inr (.inr (angle_of_isNaN (.inr hnan)))
      | false =>
        have hre : (s.re == 0) = false :=
          Bool.eq_false_iff.mpr fun hre => horigin (by rw [hre]; rfl)
        rw [angle_zero_eq hnan hre]
        split
        · exact .inr (.inl rfl)
        · exact .inl rfl
    · exact .inr (.inr (angle_of_isNaN (.inl him)))

/-- A half turn is halved to a quarter turn, unless the radius is infinite or zero. -/
theorem half_turn_cases (l : Float) :
    0 * l + 0.5 * halfTurn = quarterTurn ∧ 0 * l + 0.5 * -halfTurn = -quarterTurn ∨
      0 * l + 0.5 * halfTurn = Binary64.undefined ∧
        0 * l + 0.5 * -halfTurn = Binary64.undefined := by
  have hhalf : 0.5 * halfTurn = quarterTurn := by decide +kernel
  have hhalfNeg : 0.5 * -halfTurn = -quarterTurn := by decide +kernel
  rw [hhalf, hhalfNeg]
  rcases zero_mul_cases (a := 0) rfl l with ⟨s, hs⟩ | hnan
  · have hzero := beq_zero_iff.mpr ⟨s, hs⟩
    exact .inl ⟨zero_add_of_not_zero hzero (by decide +kernel),
      zero_add_of_not_zero hzero (by decide +kernel)⟩
  · exact .inr ⟨add_of_notANumber (.inl hnan), add_of_notANumber (.inl hnan)⟩

/-- Half an angle on the upper edge is none or a quarter turn. -/
theorem half_angle_cases (l : Float) {t : Float}
    (ht : t = 0 ∨ t = halfTurn ∨ t = Binary64.undefined) :
    0 * l + 0.5 * t = 0 ∨ 0 * l + 0.5 * t = quarterTurn ∨
      0 * l + 0.5 * t = Binary64.undefined := by
  rcases ht with rfl | rfl | rfl
  · rcases zero_mul_cases (a := 0) rfl l with ⟨s, hs⟩ | hnan
    · refine .inl (eq_zero_iff.mpr ?_)
      rw [add_eq, hs, show form (0.5 * 0) = .zero .positive from rfl, add_zero_zero,
        form_ofForm_zero]
      cases s <;> rfl
    · exact .inr (.inr (add_of_notANumber (.inl hnan)))
  · rcases half_turn_cases l with ⟨h, -⟩ | ⟨h, -⟩
    · exact .inr (.inl h)
    · exact .inr (.inr h)
  · exact .inr (.inr (add_of_notANumber (.inr rfl)))

/-- The root of a point on the upper edge of the real axis has no minus signs. -/
theorem nonneg_sqrt {s : ComplexNumber Float} (h : s.im = 0 ∨ s.im.isNaN = true) :
    Nonneg s.sqrt.re ∧ Nonneg s.sqrt.im := by
  have hhalf := half_angle_cases (Binary64.log s.radius) (angle_upperEdge h)
  have hsqrt : s.sqrt = s.raise ⟨0.5, 0⟩ := rfl
  rw [hsqrt, raise_eq]
  split
  · exact ⟨rfl, rfl⟩
  · have hexp := nonneg_exp
      (0.5 * Binary64.log s.radius - 0 * s.toPolar.angle)
    change Nonneg (_ * Binary64.cos (0 * Binary64.log s.radius + 0.5 * s.toPolar.angle)) ∧
      Nonneg (_ * Binary64.sin (0 * Binary64.log s.radius + 0.5 * s.toPolar.angle))
    rcases hhalf with ha | ha | ha
    · rw [ha]
      exact ⟨hexp.mul rfl, hexp.mul rfl⟩
    · rw [ha]
      exact ⟨hexp.mul rfl, hexp.mul rfl⟩
    · rw [ha]
      exact ⟨hexp.mul rfl, hexp.mul rfl⟩

/-- The square of a number with a zero part lies on the real axis. -/
theorem im_one_sub_mul_self {z : ComplexNumber Float}
    (h : (z.re == 0) = true ∨ (z.im == 0) = true) :
    ((ofReal 1).sub (z.mul z)).im = 0 ∨ ((ofReal 1).sub (z.mul z)).im.isNaN = true := by
  change 0 - (z.im * z.re + z.re * z.im) = 0 ∨ (0 - (z.im * z.re + z.re * z.im)).isNaN = true
  rw [Binary64.mul_comm z.im]
  have hprod : (∃ s, form (z.re * z.im) = .zero s) ∨ form (z.re * z.im) = .notANumber := by
    rcases h with hre | him
    · exact zero_mul_cases hre z.im
    · rw [Binary64.mul_comm]
      exact zero_mul_cases him z.re
  rcases hprod with ⟨s, hs⟩ | hnan
  · refine .inl (eq_zero_iff.mpr ?_)
    rw [sub_eq, add_eq, hs, add_zero_zero, form_ofForm_zero]
    cases s <;> rfl
  · refine .inr (isNaN_iff.mpr ?_)
    rw [add_of_notANumber (.inl hnan), sub_of_notANumber (.inr rfl)]
    rfl

/-- Where a part is zero, the other leg has no minus signs. -/
theorem nonneg_coLeg {z : ComplexNumber Float} (h : (z.re == 0) = true ∨ (z.im == 0) = true) :
    Nonneg z.coLeg.re ∧ Nonneg z.coLeg.im :=
  nonneg_sqrt (im_one_sub_mul_self h)

/-! ### Inverse sine and cosine -/

namespace Alike

variable {z w : ComplexNumber Float}

/-- The logarithm in the inverse sine does not see the cut from below. -/
protected theorem asin (h : Alike z w) : Alike z.asin w.asin := by
  rcases h.eq_or_zero with rfl | hzero
  · exact refl _
  · have him : ((i.mul z).add z.coLeg).im = ((i.mul w).add w.coLeg).im := by
      rw [← h.coLeg_eq, add_im, add_im, Binary64.add_comm, Binary64.add_comm (i.mul w).im]
      exact h.i_mul.im.add_left_eq (nonneg_coLeg hzero).2.ne_negZero
    have harg : Alike ((i.mul z).add z.coLeg) ((i.mul w).add w.coLeg) := by
      rw [← h.coLeg_eq]
      exact h.i_mul.add (refl _)
    exact (refl _).mul (harg.ln (sameSide_of_im_eq him))

protected theorem acos (h : Alike z w) : Alike z.acos w.acos := by
  rcases h.eq_or_zero with rfl | hzero
  · exact refl _
  · have hleg : (i.mul z.coLeg).im ≠ -0.0 := by
      change 1 * z.coLeg.re + 0 * z.coLeg.im ≠ -0.0
      rw [Binary64.one_mul, ne_eq, add_eq_negZero_iff]
      exact fun hparts => (nonneg_coLeg hzero).1.ne_negZero hparts.1
    have him : (z.add (i.mul z.coLeg)).im = (w.add (i.mul w.coLeg)).im := by
      rw [← h.coLeg_eq, add_im, add_im, Binary64.add_comm, Binary64.add_comm w.im]
      exact h.im.add_left_eq hleg
    have harg : Alike (z.add (i.mul z.coLeg)) (w.add (i.mul w.coLeg)) := by
      rw [← h.coLeg_eq]
      exact h.add (refl _)
    exact (refl _).mul (harg.ln (sameSide_of_im_eq him))

end Alike

/-! ### The lower edge of the cut -/

theorem toPolar_angle_of_neg {x : Float} (h : x < 0) (y : Float) :
    (mk x y).toPolar.angle = Binary64.angle y x := by
  have hx := (ne_zero_of_neg h).2
  change (if (x == 0 && y == 0) = true then 0 else Binary64.angle y x) = _
  rw [hx, Bool.false_and]
  rfl

theorem angle_upperEdge_of_neg {x : Float} (h : x < 0) :
    (mk x 0).toPolar.angle = halfTurn ∧ (mk x (-0.0)).toPolar.angle = -halfTurn := by
  have hx := ne_zero_of_neg h
  rw [toPolar_angle_of_neg h, toPolar_angle_of_neg h, angle_negZero, angle_zero_eq hx.1 hx.2,
    if_pos h]
  exact ⟨rfl, rfl⟩

/-- On the lower edge of the cut the logarithm is the conjugate of that on the upper edge. -/
theorem ln_lowerEdge {x : Float} (h : x < 0) : ln ⟨x, -0.0⟩ = conj (ln ⟨x, 0⟩) := by
  have hangle := angle_upperEdge_of_neg h
  refine eq_of_parts ?_ ?_
  · change Binary64.log (hypot x (-0.0)) = Binary64.log (hypot x 0)
    rw [hypot_negZero_right]
  · change (mk x (-0.0)).toPolar.angle = -(mk x 0).toPolar.angle
    rw [hangle.1, hangle.2]

/-- A quarter turn downwards is the mirror image of one upwards. -/
theorem ofPolar_neg_quarterTurn (r : Float) :
    ofPolar r (-quarterTurn) = conj (ofPolar r quarterTurn) := by
  have hsin : Binary64.sin quarterTurn = 1 ∧ Binary64.sin (-quarterTurn) = -1 := by
    decide +kernel
  have hcos : Binary64.cos (-quarterTurn) = Binary64.cos quarterTurn := by decide +kernel
  refine eq_of_parts ?_ ?_
  · change r * Binary64.cos (-quarterTurn) = r * Binary64.cos quarterTurn
    rw [hcos]
  · change r * Binary64.sin (-quarterTurn) = -(r * Binary64.sin quarterTurn)
    rw [hsin.1, hsin.2, Binary64.mul_comm r, Binary64.mul_comm r, Binary64.neg_one_mul,
      Binary64.one_mul]

theorem ofPolar_undefined (r : Float) :
    ofPolar r Binary64.undefined = conj (ofPolar r Binary64.undefined) := by
  have hneg : -Binary64.undefined = Binary64.undefined := by decide
  refine eq_of_parts rfl ?_
  change r * Binary64.undefined = -(r * Binary64.undefined)
  rw [mul_undefined, hneg]

/-- On the lower edge of the cut the root is the conjugate of that on the upper edge. -/
theorem sqrt_lowerEdge {x : Float} (h : x < 0) : sqrt ⟨x, -0.0⟩ = conj (sqrt ⟨x, 0⟩) := by
  have hangle := angle_upperEdge_of_neg h
  have hradius : (mk x (-0.0)).radius = (mk x 0).radius := hypot_negZero_right x
  have hzero : ((mk x 0).radius == 0) = false := by
    have hhypot : ((mk x 0).radius == 0) = (x == 0 && (0 : Float) == 0) := hypot_beq_zero x 0
    rw [hhypot, (ne_zero_of_neg h).2, Bool.false_and]
  have hsqrt (y : Float) : sqrt ⟨x, y⟩ = raise ⟨x, y⟩ ⟨0.5, 0⟩ := rfl
  rw [hsqrt, hsqrt, raise_eq, raise_eq, hradius, hzero, Bool.false_and, if_neg Bool.false_ne_true,
    if_neg Bool.false_ne_true, hangle.1, hangle.2]
  generalize Binary64.log (mk x 0).radius = l
  have hexp : Binary64.exp (0.5 * l - 0 * -halfTurn) = Binary64.exp (0.5 * l - 0 * halfTurn) := by
    have hup : 0 * halfTurn = 0 := by decide +kernel
    have hdown : 0 * -halfTurn = -0.0 := by decide +kernel
    rw [hup, hdown]
    exact ((Binary64.Alike.refl _).sub (.inr opposite_zero_negZero.symm)).exp
  change ofPolar (Binary64.exp (0.5 * l - 0 * -halfTurn)) (0 * l + 0.5 * -halfTurn) =
    conj (ofPolar (Binary64.exp (0.5 * l - 0 * halfTurn)) (0 * l + 0.5 * halfTurn))
  rw [hexp]
  rcases half_turn_cases l with ⟨hup, hdown⟩ | ⟨hup, hdown⟩
  · rw [hup, hdown, ofPolar_neg_quarterTurn]
  · rw [hup, hdown, ← ofPolar_undefined]

end ComplexNumber

/-! ### All operations -/

namespace BinaryOperation

open ComplexNumber

variable {z w u v : ComplexNumber Float}

/-- **An operator takes alike operands to alike results**, the quotient if the divisors, and the
power if the bases are not on opposite edges of the cut. -/
theorem eval_alike (f : BinaryOperation) (h : Alike z w) (h' : Alike u v)
    (hdivisor : f = .div → SameSide u v) (hbase : f = .pow → SameSide z w) :
    Alike (f.eval z u) (f.eval w v) := by
  cases f with
  | add => exact h.add h'
  | sub => exact h.sub h'
  | mul => exact h.mul h'
  | div => exact h.div h' (hdivisor rfl)
  | pow => exact (h.raise (hbase rfl) u).trans (.raise_exponent w h')

end BinaryOperation

namespace UnaryOperation

open ComplexNumber

variable {z w : ComplexNumber Float}

/-- **A function takes alike operands to alike results**, the logarithm and the root if they
are not on opposite edges of the cut. -/
theorem eval_alike (f : UnaryOperation) (h : Alike z w)
    (hside : f = .ln ∨ f = .sqrt → SameSide z w) : Alike (f.eval z) (f.eval w) := by
  cases f with
  | neg => exact h.neg
  | ln => exact h.ln (hside (.inl rfl))
  | exp => exact h.exp
  | sqrt => exact h.raise (hside (.inr rfl)) _
  | abs => exact .of_eq (congrArg ofReal h.radius_eq)
  | sin => exact h.sin
  | cos => exact .of_eq h.cos_eq
  | tan => exact h.tan
  | asin => exact h.asin
  | acos => exact h.acos
  | atan => exact .of_eq h.atan_eq

/-- On opposite edges of the cut, the logarithm and the root are conjugate. -/
theorem eval_lowerEdge {f : UnaryOperation} (hf : f = .ln ∨ f = .sqrt) {x : Float} (h : x < 0) :
    f.eval ⟨x, -0.0⟩ = conj (f.eval ⟨x, 0⟩) := by
  rcases hf with rfl | rfl
  · exact ln_lowerEdge h
  · exact sqrt_lowerEdge h

end UnaryOperation

end Argand
