/-!
# Signed indices

Positions in a row of entries counted from either end: `0` is the first entry,
`-1` the last.

## Main definitions

* `signedIndex? n i` — the position that `i` names among `n` entries.
* `signedGet sort xs i` — the entry at that position.
* `PlaceError` — there is no entry at a place.
* `maxLength` — no row is longer.
-/

namespace Argand

/-- There is no entry at a place. -/
inductive PlaceError
  /-- The place is outside a row of some sort. -/
  | outside (sort : String)
  /-- The place is beyond what any row can have. -/
  | tooLarge
  deriving DecidableEq, Repr

/-- The wording of an error. -/
def PlaceError.message : PlaceError → String
  | .outside sort => sort ++ " index out of range"
  | .tooLarge => "cannot fit 'int' into an index-sized integer"

/-- The greatest length of a row, `2 ^ 63 - 1`. -/
def maxLength : Int := 0x7FFFFFFFFFFFFFFF

/-- The error for a place where there is no entry, in a row of some sort. -/
def PlaceError.at (sort : String) (i : Int) : PlaceError :=
  if i < -maxLength - 1 || maxLength < i then .tooLarge else .outside sort

/-- The position named by a signed index among `n` entries. -/
def signedIndex? (n : Nat) (i : Int) : Option Nat :=
  let k := if i < 0 then i + n else i
  if 0 ≤ k && k < n then some k.toNat else none

/-- The entry at a signed index. -/
def signedGet {α : Type} (sort : String) (xs : List α) (i : Int) : Except PlaceError α :=
  match (signedIndex? xs.length i).bind (xs[·]?) with
  | some x => .ok x
  | none => .error (.at sort i)

/-- A position named by a signed index is inside the row. -/
theorem signedIndex?_lt {n : Nat} {i : Int} {k : Nat} (h : signedIndex? n i = some k) : k < n := by
  simp only [signedIndex?, Bool.and_eq_true, decide_eq_true_eq, Option.ite_none_right_eq_some,
    Option.some.injEq] at h
  omega

example : (signedGet "list" [10, 20, 30] (-1)).toOption = some 30 ∧
    (signedGet "list" [10, 20, 30] 3).toOption = none := by decide

example : PlaceError.at "list" (-maxLength - 1) = .outside "list" ∧
    PlaceError.at "list" (-maxLength - 2) = .tooLarge := by decide

end Argand
