import Argand.ComplexNumber.Basic
import Argand.Decimal.Places
import Argand.SignedIndex

/-!
# Printing complex numbers

A complex number is shown as its real part, a sign, and the size of its imaginary
part with an `i` behind it.  Each part has at most a given number of places;
zeros at the end are left out, and no zero shows a sign.

## Main definitions

* `partText places x` — one part.
* `printChars places z`, `print places z` — the whole number.
* `printWith places z` — the same for any number of places, past the last of a
  double too; `PlacesError` tells why there cannot be so many.
* `exactText z` — the two parts with all their digits.
-/

namespace Argand.ComplexNumber

open Decimal

/-- The places shown when none are asked for. -/
def defaultPlaces : Nat := 6

/-- Leaves out the zeros a row of places ends with, and the point if nothing
stays behind it. -/
def dropTrailingPlaces (cs : List Char) : List Char :=
  if cs.contains '.' then
    let kept := dropTrailingZeros cs
    if kept.getLast? = some '.' then kept.dropLast else kept
  else cs

/-- One part with at most the given number of places. -/
def partText (places : Nat) (x : Float) : List Char :=
  match notFiniteText? x with
  | some text => text.toList
  | none =>
    let kept := dropTrailingPlaces (fixed places x)
    if kept = ['-', '0'] then ['0'] else kept

/-- The characters of a printed number. -/
def printChars (places : Nat) (z : ComplexNumber Float) : List Char :=
  let im := partText places z.im.abs
  let sign := if z.im < 0 && im ≠ ['0'] then '-' else '+'
  partText places z.re ++ [' ', sign, ' '] ++ im ++ ['i']

/-- A printed number. -/
def print (places : Nat) (z : ComplexNumber Float) : String := String.ofList (printChars places z)

/-! ### Numbers of places -/

/-- Why a number cannot be shown with some number of places. -/
inductive PlacesError
  /-- There are fewer places than none. -/
  | negative
  /-- There are more places than a number can be shown with. -/
  | tooBig
  /-- There are more places than a text can have. -/
  | tooManyDigits
  deriving DecidableEq, Repr

/-- The wording of an error. -/
def PlacesError.message : PlacesError → String
  | .negative => "Format specifier missing precision"
  | .tooBig => "precision too big"
  | .tooManyDigits => "Too many decimal digits in format string"

/-- The greatest number of places, `2 ^ 31 - 1`. -/
def maxPlaces : Int := 0x7FFFFFFF

/-- A number of places, if a number can be shown with so many. -/
def checkPlaces (places : Int) : Except PlacesError Nat :=
  if places < 0 then .error .negative
  else if maxLength < places then .error .tooManyDigits
  else if maxPlaces < places then .error .tooBig
  else .ok places.toNat

/-- The most places after the point that a double has; the digits behind them are
zeros, which are left out. -/
def allPlaces : Nat := 1074

/-- A number printed with some number of places.  A part that is not finite has no
places, so if neither part is, any number will do. -/
def printWith (places : Int) (z : ComplexNumber Float) : Except PlacesError String :=
  if z.re.isFinite || z.im.isFinite then
    (checkPlaces places).map fun n => print (min n allPlaces) z
  else .ok (print 0 z)

/-- All numbers of places from none up to the greatest are good. -/
theorem checkPlaces_natCast {places : Nat} (h : places ≤ maxPlaces) :
    checkPlaces places = .ok places := by
  have h1 : ¬(places : Int) < 0 := by omega
  have h2 : ¬maxLength < places := by
    have : maxPlaces ≤ maxLength := by decide
    omega
  have h3 : ¬maxPlaces < places := by omega
  simp [checkPlaces, h1, h2, h3]

/-! ### Exact text -/

/-- The two parts with as many digits as it takes to read them back. -/
def exactText (z : ComplexNumber Float) : String :=
  "Complex(" ++ text z.re ++ ", " ++ text z.im ++ ")"

example : print 6 ⟨4, -3⟩ = "4 - 3i" ∧ print 2 ⟨-0.001, -0.001⟩ = "0 + 0i" ∧
    print 0 ⟨2.5, Binary64.undefined⟩ = "2 + nani" := by decide +kernel

end Argand.ComplexNumber
