import Argand.Operation
import Argand.SignedIndex

/-!
# Programs

A program is a sequence of tokens in postfix order: values are pushed, operations
replace the operands they follow, and an assignment takes a value off again.

## Main definitions

* `Token.Kind`, `Token` — one step, and the line of the formula it comes from.
* `Program` — the steps, with the text they were read from.
* `Program.identifiers` — the names that are not assigned before they are read.
* the `BEq` instances — equality of steps up to their lines.
-/

namespace Argand

/-- What a token does. -/
inductive Token.Kind
  /-- Push a number. -/
  | number (value : ComplexNumber Float)
  /-- Push the value of a name. -/
  | identifier (name : String)
  /-- Replace operands by a result. -/
  | operation (op : Operation)
  /-- An operator known only by its symbol; there is nothing it could do. -/
  | foreign (symbol : String)
  /-- Take the last value off and remember it under a name. -/
  | assign (name : String)
  /-- Push the point at which the formula is evaluated. -/
  | input
  /-- A token that says nothing. -/
  | blank
  deriving DecidableEq, Repr

/-- A step of a program and the line it comes from. -/
structure Token where
  kind : Token.Kind
  line : Int
  deriving DecidableEq, Repr

/-- A program and the text it was read from. -/
structure Program where
  tokens : List Token
  source : String
  deriving Repr

/-- The program without any steps. -/
def Program.empty : Program := ⟨[], ""⟩

/-! ### Equality of programs

Tokens are equal if they do the same; their lines do not count.  Numbers are
compared as doubles are, so an undefined number differs from itself. -/

instance : BEq Token.Kind where
  beq
    | .number z, .number w => z == w
    | .identifier a, .identifier b => a == b
    | .operation a, .operation b => a == b
    | .foreign a, .foreign b => a == b
    | .assign a, .assign b => a == b
    | .input, .input => true
    | .blank, .blank => true
    | _, _ => false

instance : BEq Token where
  beq s t := s.kind == t.kind

instance : BEq Program where
  beq a b := a.tokens == b.tokens

theorem Token.beq_eq_kind (s t : Token) : (s == t) = (s.kind == t.kind) := rfl

theorem Program.beq_eq_tokens (a b : Program) : (a == b) = (a.tokens == b.tokens) := rfl

/-! ### Names -/

/-- The names still to be looked up by the tokens, given those assigned and those
listed before. -/
def identifiersFrom (assigned listed : List String) : List Token → List String
  | [] => listed
  | token :: rest =>
    match token.kind with
    | .assign name => identifiersFrom (name :: assigned) listed rest
    | .identifier name =>
      if assigned.contains name || listed.contains name then identifiersFrom assigned listed rest
      else identifiersFrom assigned (listed ++ [name]) rest
    | _ => identifiersFrom assigned listed rest

/-- The names a program reads without having assigned them before, in the order
of their first reading. -/
def Program.identifiers (p : Program) : List String := identifiersFrom [] [] p.tokens

/-- The token at a signed index. -/
def Program.get (p : Program) (i : Int) : Except PlaceError Token :=
  signedGet "tuple" p.tokens i

end Argand
