import Argand.Operation

/-!
# Columns

Calculating with a whole column of numbers at once, one for each point.  An
operation is carried out on every entry, and where it has a special case both
results are worked out and a mask selects between them.

## Main definitions

* `Column β n` — `n` entries.
* `Column.select` — entries of one column where a mask holds, of another
  elsewhere.
* `Column.Sums` — how complex columns are added and subtracted; `Sums.scaled` is the
  way it is done here.
* `Column.mul`, `Column.raise`, `Column.ln`, … — the operations on columns of
  complex numbers.
* `Kernels` — an operation on columns for each operation on numbers.
* `Kernels.ofSums`, `Kernels.standard` — the operations of this module.
* `Column.rows` — from columns to the values at each point.
-/

namespace Argand

/-- One entry for each of `n` points. -/
abbrev Column (β : Type) (n : Nat) : Type := Vector β n

namespace Column

open RealArithmetic

variable {α : Type} [RealArithmetic α] {n : Nat}

/-! ### Building and taking apart -/

/-- The same entry everywhere. -/
def constant {β : Type} (n : Nat) (b : β) : Column β n := Vector.replicate n b

/-- The entries of `a` where the mask holds, and of `b` elsewhere. -/
def select {β : Type} (mask : Column Bool n) (a b : Column β n) : Column β n :=
  Vector.ofFn fun j => if mask[j] then a[j] else b[j]

/-- The real parts. -/
def re (z : Column (ComplexNumber α) n) : Column α n := z.map (·.re)

/-- The imaginary parts. -/
def im (z : Column (ComplexNumber α) n) : Column α n := z.map (·.im)

/-- A column of complex numbers from its parts. -/
def ofParts (re im : Column α n) : Column (ComplexNumber α) n := Vector.zipWith .mk re im

/-- Entrywise sum of real columns. -/
def plus (a b : Column α n) : Column α n := Vector.zipWith (· + ·) a b

/-- Entrywise difference of real columns. -/
def minus (a b : Column α n) : Column α n := Vector.zipWith (· - ·) a b

/-- Entrywise product of real columns. -/
def times (a b : Column α n) : Column α n := Vector.zipWith (· * ·) a b

/-- Where a real column is zero. -/
def isZeroMask (a : Column α n) : Column Bool n := a.map isZero

/-! ### Constants

A negative imaginary constant is the negation of a positive one, so its real part
is a negative zero. -/

/-- A column of one real number. -/
def constantReal (n : Nat) (x : α) : Column (ComplexNumber α) n := constant n (.ofReal x)

/-- A column of one imaginary number. -/
def constantImaginary (n : Nat) (y : α) : Column (ComplexNumber α) n := constant n (.ofImaginary y)

/-- A column of the negation of one imaginary number. -/
def constantNegImaginary (n : Nat) (y : α) : Column (ComplexNumber α) n :=
  constant n (ComplexNumber.ofImaginary y).neg

/-! ### Arithmetic -/

/-- `z + factor · w`, entry by entry.  The product with the factor is worked out
even where the factor is a unit, so an infinite part of `w` leaves the other part
undefined. -/
def addScaled (factor : ComplexNumber α) (z w : Column (ComplexNumber α) n) :
    Column (ComplexNumber α) n :=
  Vector.zipWith (fun a b => a.add (factor.mul b)) z w

/-- A sum and a difference of complex columns.  The other operations work on the
parts, or go back to these. -/
structure Sums (α : Type) (n : Nat) where
  add : Column (ComplexNumber α) n → Column (ComplexNumber α) n → Column (ComplexNumber α) n
  sub : Column (ComplexNumber α) n → Column (ComplexNumber α) n → Column (ComplexNumber α) n

/-- Sums and differences with a factor in front of the second column. -/
def Sums.scaled : Sums α n where
  add := addScaled (.ofReal one)
  sub := addScaled (.ofReal (-one))

/-- Entrywise negation. -/
def neg (z : Column (ComplexNumber α) n) : Column (ComplexNumber α) n := z.map .neg

/-- Entrywise product. -/
def mul (z w : Column (ComplexNumber α) n) : Column (ComplexNumber α) n :=
  ofParts (minus (times (re z) (re w)) (times (im z) (im w)))
    (plus (times (im z) (re w)) (times (re z) (im w)))

/-! ### Polar form, powers and logarithms -/

/-- Distances from the origin. -/
def radius (z : Column (ComplexNumber α) n) : Column α n := Vector.zipWith hypot (re z) (im z)

/-- Angles; zero at the origin. -/
def angle (z : Column (ComplexNumber α) n) : Column α n :=
  select (isZeroMask (radius z)) (constant n zero)
    (Vector.zipWith RealArithmetic.angle (im z) (re z))

/-- From polar form. -/
def ofPolar (radius angle : Column α n) : Column (ComplexNumber α) n :=
  ofParts (times radius (angle.map cos)) (times radius (angle.map sin))

/-- Entrywise power; zero where only the base is at the origin. -/
def raise (base exponent : Column (ComplexNumber α) n) : Column (ComplexNumber α) n :=
  let logRadius := (radius base).map log
  let magnitude := (minus (times (re exponent) logRadius) (times (im exponent) (angle base))).map
    RealArithmetic.exp
  let turn := plus (times (im exponent) logRadius) (times (re exponent) (angle base))
  -- entries with a base at the origin are worked out too, and dropped here
  let zeroBase := isZeroMask (radius base)
  let zeroExponent := isZeroMask (radius exponent)
  select (Vector.zipWith (fun b e => b && !e) zeroBase zeroExponent)
    (constantReal n zero) (ofPolar magnitude turn)

/-- Entrywise quotient; undefined where the divisor is at the origin. -/
def div (z w : Column (ComplexNumber α) n) : Column (ComplexNumber α) n :=
  select (isZeroMask (radius w)) (constant n .undefined)
    (mul z (raise w (constantReal n (-one))))

/-- Entrywise logarithm. -/
def ln (z : Column (ComplexNumber α) n) : Column (ComplexNumber α) n :=
  ofParts ((radius z).map log) (angle z)

/-- Entrywise exponential. -/
def exp (z : Column (ComplexNumber α) n) : Column (ComplexNumber α) n :=
  ofPolar ((re z).map RealArithmetic.exp) (im z)

/-- Entrywise square root. -/
def sqrt (z : Column (ComplexNumber α) n) : Column (ComplexNumber α) n :=
  raise z (constantReal n half)

/-- Entrywise distance from the origin, as complex numbers. -/
def abs (z : Column (ComplexNumber α) n) : Column (ComplexNumber α) n :=
  ofParts (radius z) (constant n zero)

/-! ### Circular functions -/

/-- `iz`, entry by entry. -/
def timesI (z : Column (ComplexNumber α) n) : Column (ComplexNumber α) n :=
  mul (constantImaginary n one) z

variable (sums : Sums α n)

/-- Entrywise sine. -/
def sin (z : Column (ComplexNumber α) n) : Column (ComplexNumber α) n :=
  mul (sums.sub (exp (timesI z)) (exp (neg (timesI z)))) (constantNegImaginary n half)

/-- Entrywise cosine. -/
def cos (z : Column (ComplexNumber α) n) : Column (ComplexNumber α) n :=
  mul (sums.add (exp (timesI z)) (exp (neg (timesI z)))) (constantReal n half)

/-- Entrywise tangent. -/
def tan (z : Column (ComplexNumber α) n) : Column (ComplexNumber α) n :=
  div (sin sums z) (cos sums z)

/-- `√(1 - z²)`, entry by entry. -/
def coLeg (z : Column (ComplexNumber α) n) : Column (ComplexNumber α) n :=
  sqrt (sums.sub (constantReal n one) (mul z z))

/-- Entrywise inverse sine. -/
def asin (z : Column (ComplexNumber α) n) : Column (ComplexNumber α) n :=
  mul (constantNegImaginary n one) (ln (sums.add (timesI z) (coLeg sums z)))

/-- Entrywise inverse cosine. -/
def acos (z : Column (ComplexNumber α) n) : Column (ComplexNumber α) n :=
  mul (constantNegImaginary n one) (ln (sums.add z (timesI (coLeg sums z))))

/-- Entrywise inverse tangent. -/
def atan (z : Column (ComplexNumber α) n) : Column (ComplexNumber α) n :=
  mul (constantImaginary n half)
    (sums.sub (ln (sums.sub (constantReal n one) (timesI z)))
      (ln (sums.add (constantReal n one) (timesI z))))

/-! ### Rows -/

/-- The values at each point, from columns in the order they were pushed. -/
def rows {β : Type} (columns : List (Column β n)) : List (List β) :=
  List.ofFn fun j : Fin n => columns.map (·[j])

@[simp] theorem length_rows {β : Type} (columns : List (Column β n)) :
    (rows columns).length = n := by
  simp [rows]

end Column

/-- An operation on columns of `n` doubles for each operation on numbers. -/
structure Kernels (n : Nat) where
  unary : UnaryOperation → Column (ComplexNumber Float) n → Column (ComplexNumber Float) n
  binary : BinaryOperation → Column (ComplexNumber Float) n → Column (ComplexNumber Float) n →
    Column (ComplexNumber Float) n

/-- The operations on columns, for a way to add and subtract. -/
def Kernels.ofSums {n : Nat} (sums : Column.Sums Float n) : Kernels n where
  unary
    | .neg => Column.neg
    | .ln => Column.ln
    | .exp => Column.exp
    | .sqrt => Column.sqrt
    | .abs => Column.abs
    | .sin => Column.sin sums
    | .cos => Column.cos sums
    | .tan => Column.tan sums
    | .asin => Column.asin sums
    | .acos => Column.acos sums
    | .atan => Column.atan sums
  binary
    | .add => sums.add
    | .sub => sums.sub
    | .mul => Column.mul
    | .div => Column.div
    | .pow => Column.raise

/-- The operations on columns that programs are run with. -/
def Kernels.standard (n : Nat) : Kernels n := .ofSums .scaled

end Argand
