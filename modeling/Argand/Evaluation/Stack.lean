import Argand.Evaluation.EvalError
import Argand.Operation

/-!
# Stacks

The values that a running program has at hand, the last one on top.

## Main definitions

* `Stack` — the values, top first.
* `Stack.toList` — the values in the order they were pushed.
* `push`, `pop`, `popMany` — putting values on and taking them off.
* `Stack.apply` — an operation on the values at the top.
-/

namespace Argand

/-- Values on top of each other, the top first. -/
structure Stack where
  items : List (ComplexNumber Float)
  deriving DecidableEq, Repr

namespace Stack

/-- The stack without values. -/
def empty : Stack := ⟨[]⟩

/-- The values in the order they were pushed. -/
def toList (s : Stack) : List (ComplexNumber Float) := s.items.reverse

/-- How many values there are. -/
def size (s : Stack) : Nat := s.items.length

/-- Puts a value on top. -/
def push (s : Stack) (z : ComplexNumber Float) : Stack := ⟨z :: s.items⟩

/-- Takes the top value off. -/
def pop (s : Stack) (line : Int) : Except EvalError (ComplexNumber Float × Stack) :=
  match s.items with
  | [] => .error (.stackUnderflow line 1 0)
  | z :: rest => .ok (z, ⟨rest⟩)

/-- How many values a count takes off.  A negative count tells how many values at
the bottom are left where they are. -/
def taken (s : Stack) (count : Int) : Nat :=
  if count < 0 then s.size - count.natAbs else count.toNat

/-- Takes a number of values off the top; they come in the order they were
pushed. -/
def popMany (s : Stack) (count : Int) (line : Int) :
    Except EvalError (List (ComplexNumber Float) × Stack) :=
  if s.size < count then .error (.stackUnderflow line count.toNat s.size)
  else .ok ((s.items.take (s.taken count)).reverse, ⟨s.items.drop (s.taken count)⟩)

/-- Replaces the operands on top by the value of an operation. -/
def apply (s : Stack) (op : Operation) (line : Int) : Except EvalError Stack :=
  match op, s.items with
  | .binary f, w :: z :: rest => .ok ⟨f.eval z w :: rest⟩
  | .unary f, z :: rest => .ok ⟨f.eval z :: rest⟩
  | _, _ => .error (.stackUnderflow line op.arity s.size)

/-! ### The values after each operation -/

@[simp] theorem toList_empty : empty.toList = [] := rfl

@[simp] theorem toList_push (s : Stack) (z : ComplexNumber Float) :
    (s.push z).toList = s.toList ++ [z] := by
  simp [toList, push]

@[simp] theorem length_toList (s : Stack) : s.toList.length = s.size := by
  simp [toList, size]

@[simp] theorem size_push (s : Stack) (z : ComplexNumber Float) : (s.push z).size = s.size + 1 := rfl

@[simp] theorem taken_natCast (s : Stack) (n : Nat) : s.taken n = n := by
  have h : ¬(n : Int) < 0 := by omega
  simp [taken, h]

@[simp] theorem pop_push (s : Stack) (z : ComplexNumber Float) (line : Int) :
    (s.push z).pop line = .ok (z, s) := rfl

@[simp] theorem apply_unary_push (s : Stack) (z : ComplexNumber Float) (f : UnaryOperation)
    (line : Int) : (s.push z).apply (.unary f) line = .ok (s.push (f.eval z)) := rfl

@[simp] theorem apply_binary_push (s : Stack) (z w : ComplexNumber Float) (f : BinaryOperation)
    (line : Int) : ((s.push z).push w).apply (.binary f) line = .ok (s.push (f.eval z w)) := rfl

/-- An operation on the stack is the operation on the values taken off it. -/
theorem apply_eq_popMany (s : Stack) (op : Operation) (line : Int) :
    s.apply op line =
      match s.popMany op.arity line with
      | .error e => .error e
      | .ok (args, rest) =>
        match op.apply args with
        | .ok z => .ok (rest.push z)
        | .error _ => .error (.stackUnderflow line op.arity s.size) := by
  obtain ⟨items⟩ := s
  cases op with
  | binary f =>
    match items with
    | [] => rfl
    | [_] => rfl
    | _ :: _ :: _ =>
      simp only [apply, popMany, size, Operation.arity]
      rfl
  | unary f =>
    match items with
    | [] => rfl
    | _ :: _ =>
      simp only [apply, popMany, size, Operation.arity]
      rfl

example : ((Stack.mk [⟨3, 0⟩, ⟨2, 0⟩, ⟨1, 0⟩]).popMany (-1) 0).toOption =
    some ([⟨2, 0⟩, ⟨3, 0⟩], ⟨[⟨1, 0⟩]⟩) := by decide +kernel

end Stack

end Argand
