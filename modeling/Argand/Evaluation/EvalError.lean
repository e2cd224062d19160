import Argand.ComplexNumber.Basic

/-!
# Evaluation errors

Why a program cannot be run to its end.

## Main definitions

* `EvalError` — what went wrong, and on which line.
* `EvalError.message` — the wording.
* `Resolver` — how names get their values.
-/

namespace Argand

/-- What names stand for; `none` for a name that stands for nothing. -/
abbrev Resolver := String → Option (ComplexNumber Float)

/-- Why a program stops. -/
inductive EvalError
  /-- A step needs more values than there are. -/
  | stackUnderflow (line : Int) (needed available : Nat)
  /-- A name stands for nothing. -/
  | unknownIdentifier (name : String) (line : Int)
  /-- A token that is no operation stands where one should. -/
  | invalidOperator (symbol : String)
  deriving DecidableEq, Repr

/-- The wording of an error. -/
def EvalError.message : EvalError → String
  | .stackUnderflow line needed available =>
    "line " ++ toString line ++ ": needs " ++ toString needed ++ " value(s) on the stack, found " ++
      toString available
  | .unknownIdentifier name line => "line " ++ toString line ++ ": unknown identifier '" ++ name ++ "'"
  | .invalidOperator symbol => "'" ++ symbol ++ "' is not a valid operator"

end Argand
