import Argand.Binary64.Basic

/-!
# The shortest decimal that reads back

Writing a double with the fewest digits that are read back as the same double;
of several such decimals the one nearest to the double.

Every real number of an interval around a double is read as that double: half
the distance to each neighbour, ends included when the significand is even.  If
a point of a decimal grid lies in that interval then so does one of the two grid
points next to the double itself, so it is enough to try those on one grid after
the other.

## Main definitions

* `Scientific` — a coefficient and the power of ten it is multiplied by.
* `shortest p` — the shortest decimal that is read back as the double `p`.
* `Layout` — where a written decimal changes to a power of ten.
* `text x` — a double written with as few digits as possible.
-/

namespace Argand.Decimal

open Binary64 (Parts)

/-- The decimal `coefficient · 10 ^ power`. -/
structure Scientific where
  coefficient : Nat
  power : Int
  deriving DecidableEq, Repr

/-! ### The interval around a double -/

/-- The ratio `a · 2 ^ e` in units of `10 ^ power`. -/
def inUnits (power : Int) (a : Nat) (e : Int) : Ratio :=
  Ratio.scale 10 (-power) (Ratio.scale 2 e ⟨a, 1⟩)

/-- Whether `n · 10 ^ power` is read as the double `p`.  Below a power of two the
neighbouring double is only half as far away. -/
def readsAs (p : Parts) (power : Int) (n : Nat) : Bool :=
  let narrow := p.significand = Binary64.fieldUnit && Binary64.minExponent < p.exponent
  -- the ends of the interval, in quarters of a unit of the last place
  let low := inUnits power (4 * p.significand - if narrow then 1 else 2) (p.exponent - 2)
  let high := inUnits power (4 * p.significand + 2) (p.exponent - 2)
  if p.significand % 2 = 0 then low.num ≤ n * low.den && n * high.den ≤ high.num
  else low.num < n * low.den && n * high.den < high.num

/-- Of the two points next to the double `p` on the grid of multiples of
`10 ^ power`, the nearer one that is read as `p`; an even one if both are as
near. -/
def onGrid? (p : Parts) (power : Int) : Option Scientific :=
  let exact := inUnits power p.significand p.exponent
  let below := exact.num / exact.den
  match readsAs p power below, readsAs p power (below + 1) with
  | true, true => some ⟨exact.round, power⟩
  | true, false => some ⟨below, power⟩
  | false, true => some ⟨below + 1, power⟩
  | false, false => none

/-- Seventeen digits always suffice. -/
def maxDigits : Nat := 17

/-- The shortest decimal that is read back as the double `p`, which is not
zero. -/
def shortest (p : Parts) : Scientific :=
  let order := p.magnitude.floorLog10
  -- one digit, then two, and so on
  let coarse := (List.range maxDigits).findSome? fun (n : Nat) => onGrid? p (order - n)
  coarse.getD
    (let power := order - maxDigits + 1
     ⟨(inUnits power p.significand p.exponent).round, power⟩)

/-! ### Layout -/

/-- How a decimal is laid out: the orders of magnitude written without a power
of ten, and the least number of digits of a power of ten. -/
structure Layout where
  lowest : Int
  highest : Int
  powerDigits : Nat

/-- Positional from `0.0001` to below `10 ^ 16`, and two digits of a power of ten
beyond. -/
def layout : Layout := ⟨-4, 15, 2⟩

/-- Puts zeros in front of a row of digits. -/
def padStart (width : Nat) (digits : List Char) : List Char :=
  List.replicate (width - digits.length) '0' ++ digits

/-- Puts zeros behind a row of digits. -/
def padEnd (width : Nat) (digits : List Char) : List Char :=
  digits ++ List.replicate (width - digits.length) '0'

/-- The row of digits without the zeros it ends with. -/
def dropTrailingZeros (digits : List Char) : List Char :=
  (digits.reverse.dropWhile (· == '0')).reverse

/-- A power of ten as it is written: always with a sign. -/
def powerText (width : Nat) (power : Int) : List Char :=
  'e' :: (if power < 0 then '-' else '+') :: padStart width (Nat.toDigits 10 power.natAbs)

/-- A point and the digits after it; nothing if there are none. -/
def fractionText (digits : List Char) : List Char :=
  if digits.isEmpty then [] else '.' :: digits

/-- The decimal laid out.  Without a power of ten at least one digit follows the
point. -/
def Layout.write (l : Layout) (d : Scientific) : List Char :=
  let row := Nat.toDigits 10 d.coefficient
  let order : Int := d.power + (row.length - 1 : Nat)
  let digits := dropTrailingZeros row
  if l.lowest ≤ order && order ≤ l.highest then
    -- zeros between the point and the first digit, or zeros up to the point
    if order < 0 then '0' :: '.' :: (List.replicate (-order - 1).toNat '0' ++ digits)
    else
      let wholeWidth := order.toNat + 1
      let whole := padEnd wholeWidth (digits.take wholeWidth)
      whole ++ '.' :: padEnd 1 (digits.drop wholeWidth)
  else digits.take 1 ++ fractionText (digits.drop 1) ++ powerText l.powerDigits order

/-- The text of a double that is not finite, if it is not. -/
def notFiniteText? (x : Float) : Option String :=
  if x.isNaN then some "nan"
  else if x.isInf then some (if x < 0 then "-inf" else "inf")
  else none

/-- A minus sign if asked. -/
def signText (negative : Bool) : List Char := if negative then ['-'] else []

/-- A double written with the fewest digits that are read back as the same
double. -/
def text (x : Float) : String :=
  (notFiniteText? x).getD <|
    let p := Binary64.decode x
    let digits := if p.significand = 0 then "0.0".toList else layout.write (shortest p)
    String.ofList (signText p.negative ++ digits)

example : [0, -0.0, 1, 0.1, 1e16, 123456789012345680.0, 5e-324, 1e-5, 1e23, 0.0001].map text =
    ["0.0", "-0.0", "1.0", "0.1", "1e+16", "1.2345678901234568e+17", "5e-324", "1e-05", "1e+23",
     "0.0001"] := by decide +kernel

end Argand.Decimal
