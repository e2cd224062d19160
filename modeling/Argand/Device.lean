/-!
# Devices

Where calculations are carried out: on the processor, or on one of the graphics
cards of the machine.  A device that is asked for but not offered, or that the
library does not accept, is replaced by the processor.

## Main definitions

* `Device` — a device as it is offered for choice.
* `Device.available` — the devices of a machine with given graphics cards.
* `Device.select` — the device that is used when one is asked for.

## Main results

* `Device.select_mem`, `Device.select_of_mem` — only devices that are there are used,
  and each of them can be had under its identifier.
* `Device.select_of_unavailable` — in place of any other it is the processor.
-/

namespace Argand

/-- A device as it is offered for choice. -/
structure Device where
  identifier : String
  label : String
  description : String
  deriving DecidableEq, Repr

namespace Device

/-- The processor. -/
def processor : Device := ⟨"cpu", "CPU", "Use the CPU for computation."⟩

/-- A graphics card, by its place among the others and its name. -/
def graphicsCard (i : Nat) (name : String) : Device :=
  ⟨"cuda:" ++ toString i, "GPU", "GPU " ++ toString i ++ ": " ++ name⟩

/-- The devices there are.  The argument holds the names of the graphics cards; a
machine on which none can be used has none. -/
def available (cards : List String) : List Device := processor :: cards.mapIdx graphicsCard

/-- The device that is used when one is asked for: one of those offered, if the
library makes a device of its identifier. -/
def select (offered : List Device) (accepts : String → Bool) (identifier : String) : Device :=
  (offered.find? fun d => d.identifier == identifier && accepts identifier).getD processor

/-! ### Identifiers -/

/-- The place of a graphics card can be read off its identifier. -/
theorem eq_of_identifier_graphicsCard {i j : Nat} {name name' : String}
    (h : (graphicsCard i name).identifier = (graphicsCard j name').identifier) : i = j := by
  have hdigits : Nat.toDigits 10 i = Nat.toDigits 10 j :=
    String.ofList_injective ((String.append_right_inj "cuda:").mp h)
  rw [← Nat.ofDigitChars_ten_toDigits (n := i), hdigits, Nat.ofDigitChars_ten_toDigits]

theorem identifier_graphicsCard_ne (i : Nat) (name : String) :
    (graphicsCard i name).identifier ≠ processor.identifier := by
  intro h
  have htext := congrArg String.toList h
  simp [graphicsCard, processor] at htext

/-- Devices of one machine have different identifiers. -/
theorem eq_of_identifier_eq {cards : List String} {d d' : Device} (hd : d ∈ available cards)
    (hd' : d' ∈ available cards) (h : d.identifier = d'.identifier) : d = d' := by
  rw [available, List.mem_cons, List.mem_mapIdx] at hd hd'
  obtain rfl | ⟨i, hi, rfl⟩ := hd
  · obtain rfl | ⟨j, hj, rfl⟩ := hd'
    · rfl
    · exact absurd h.symm (identifier_graphicsCard_ne j cards[j])
  · obtain rfl | ⟨j, hj, rfl⟩ := hd'
    · exact absurd h (identifier_graphicsCard_ne i cards[i])
    · obtain rfl := eq_of_identifier_graphicsCard h
      rfl

/-! ### The device that is used -/

/-- The device that is used is one of those there are. -/
theorem select_mem (cards : List String) (accepts : String → Bool) (identifier : String) :
    select (available cards) accepts identifier ∈ available cards := by
  rw [select]
  cases hfound : (available cards).find? fun d =>
      d.identifier == identifier && accepts identifier with
  | none => exact List.mem_cons_self
  | some d => exact List.mem_of_find?_eq_some hfound

/-- **Each device can be had under its identifier.** -/
theorem select_of_mem {cards : List String} {accepts : String → Bool} {d : Device}
    (hd : d ∈ available cards) (haccepts : accepts d.identifier = true) :
    select (available cards) accepts d.identifier = d := by
  rw [select]
  cases hfound : (available cards).find? fun d' =>
      d'.identifier == d.identifier && accepts d.identifier with
  | none =>
    have hmissed := List.find?_eq_none.mp hfound d hd
    simp [haccepts] at hmissed
  | some d' =>
    have hsame := List.find?_some hfound
    simp only [Bool.and_eq_true, beq_iff_eq] at hsame
    exact eq_of_identifier_eq (List.mem_of_find?_eq_some hfound) hd hsame.1

/-- The processor takes the place of a device that is not there or not accepted. -/
theorem select_of_unavailable {offered : List Device} {accepts : String → Bool}
    {identifier : String}
    (h : ∀ d ∈ offered, d.identifier = identifier → accepts identifier = false) :
    select offered accepts identifier = processor := by
  have hnone : offered.find? (fun d => d.identifier == identifier && accepts identifier) = none :=
    List.find?_eq_none.mpr fun d hd => by simpa using h d hd
  rw [select, hnone, Option.getD_none]

end Device

end Argand
