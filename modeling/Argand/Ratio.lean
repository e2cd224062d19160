/-!
# Ratios

Quotients of natural numbers, kept exact, with the roundings and orders of
magnitude that reading and writing numbers rest on.

## Main definitions

* `Ratio` — a numerator and a denominator.
* `Ratio.round r` — the natural number nearest to `r`, a half going to the even
  neighbour.
* `Ratio.scale base e r` — `r` multiplied by `base ^ e`.
* `Ratio.powerLe base e r` — `base ^ e ≤ r`.
* `Ratio.floorLog2 r`, `Ratio.floorLog10 r` — the largest `e` with `2 ^ e ≤ r`,
  respectively `10 ^ e ≤ r`.
-/

namespace Argand

/-- A quotient of natural numbers. -/
structure Ratio where
  num : Nat
  den : Nat
  deriving DecidableEq, Repr

namespace Ratio

/-- The natural number nearest to the ratio; a half goes to the even
neighbour. -/
def round (r : Ratio) : Nat :=
  if 2 * (r.num % r.den) < r.den then r.num / r.den
  else if r.den < 2 * (r.num % r.den) then r.num / r.den + 1
  else r.num / r.den + r.num / r.den % 2

/-- The ratio multiplied by `base ^ e`. -/
def scale (base : Nat) (e : Int) (r : Ratio) : Ratio :=
  ⟨r.num * base.pow e.toNat, r.den * base.pow (-e).toNat⟩

/-- Whether `base ^ e` is at most the ratio. -/
def powerLe (base : Nat) (e : Int) (r : Ratio) : Bool :=
  base.pow e.toNat * r.den ≤ r.num * base.pow (-e).toNat

/-- The largest `e` with `2 ^ e ≤ r`, for a positive ratio. -/
def floorLog2 (r : Ratio) : Int :=
  let guess : Int := (r.num.log2 : Int) - (r.den.log2 : Int)
  if r.powerLe 2 guess then guess else guess - 1

/-- The largest `e` with `10 ^ e ≤ r`, for a positive ratio.  The binary orders
of magnitude give it up to one. -/
def floorLog10 (r : Ratio) : Int :=
  -- `0.30103` is the decimal logarithm of two
  let guess : Int := ((r.num.log2 : Int) - (r.den.log2 : Int)) * 30103 / 100000
  if r.powerLe 10 (guess + 1) then guess + 1
  else if r.powerLe 10 guess then guess
  else guess - 1

/-! ### Rounding to nearest -/

/-- The rounded ratio is at most half a unit too large. -/
theorem round_mul_le (r : Ratio) (h : 0 < r.den) :
    2 * (r.round * r.den) ≤ 2 * r.num + r.den := by
  have hd := Nat.div_add_mod r.num r.den
  have hm := Nat.mod_lt r.num h
  rw [Nat.mul_comm] at hd
  unfold round
  split
  · omega
  · split
    · rw [Nat.add_mul]; omega
    · rcases Nat.mod_two_eq_zero_or_one (r.num / r.den) with h2 | h2 <;>
        rw [h2, Nat.add_mul] <;> omega

/-- The rounded ratio is at most half a unit too small. -/
theorem le_round_mul (r : Ratio) (h : 0 < r.den) :
    2 * r.num ≤ 2 * (r.round * r.den) + r.den := by
  have hd := Nat.div_add_mod r.num r.den
  have hm := Nat.mod_lt r.num h
  rw [Nat.mul_comm] at hd
  unfold round
  split
  · omega
  · split
    · rw [Nat.add_mul]; omega
    · rcases Nat.mod_two_eq_zero_or_one (r.num / r.den) with h2 | h2 <;>
        rw [h2, Nat.add_mul] <;> omega

/-- A whole number is its own rounding. -/
theorem round_whole (n : Nat) {den : Nat} (h : 0 < den) : (Ratio.mk (n * den) den).round = n := by
  simp [round, Nat.mul_div_cancel n h, h]

example : [1, 2, 3, 5, 6, 7].map (fun n => (Ratio.mk n 4).round) = [0, 0, 1, 1, 2, 2] := by decide

example : (Ratio.mk 999 1).floorLog10 = 2 ∧ (Ratio.mk 1000 1).floorLog10 = 3 ∧
    (Ratio.mk 1 1000).floorLog10 = -3 := by decide

end Ratio

end Argand
