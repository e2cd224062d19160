import Argand.Formula.Lexeme

/-!
# Parse errors

Why a line of a formula cannot be read, and where.

## Main definitions

* `ParseError.Reason` — what is wrong.
* `ParseError` — the reason with its line and column.
* `ParseError.message` — the wording, with the place in front.
-/

namespace Argand

/-- What is wrong with a line. -/
inductive ParseError.Reason
  /-- No lexeme starts with this character. -/
  | unexpectedCharacter (c : Char)
  /-- The text is not a number. -/
  | notANumber (text : String)
  /-- An expression is complete, but something follows it. -/
  | unexpectedLexeme (found : Lexeme.Kind)
  /-- The line ends where an operand should stand. -/
  | missingOperand
  /-- Something else stands where an operand should. -/
  | expectedOperand (found : Lexeme.Kind)
  /-- An opening parenthesis that nothing closes. -/
  | unmatchedOpen
  /-- A closing parenthesis that nothing opened. -/
  | unmatchedClose
  /-- A name that is no function stands before a parenthesis. -/
  | unknownFunction (name : String)
  /-- The target of an assignment is not a name. -/
  | invalidTarget (text : String)
  /-- The target of an assignment has a meaning of its own. -/
  | reservedTarget (name : String)
  deriving DecidableEq, Repr

/-- A reason with its place: lines count from one, columns from zero. -/
structure ParseError where
  line : Int
  column : Nat
  reason : ParseError.Reason
  deriving DecidableEq, Repr

/-- The wording of a reason. -/
def ParseError.Reason.message : ParseError.Reason → String
  | .unexpectedCharacter c => "unexpected character '" ++ c.toString ++ "'"
  | .notANumber text => "'" ++ text ++ "' is not a number"
  | .unexpectedLexeme found => "unexpected token '" ++ found.text ++ "'"
  | .missingOperand => "expected an operand"
  | .expectedOperand found => "expected an operand, found '" ++ found.text ++ "'"
  | .unmatchedOpen => "unmatched '('"
  | .unmatchedClose => "unmatched ')'"
  | .unknownFunction name => "unknown function '" ++ name ++ "'"
  | .invalidTarget text => "invalid assignment target '" ++ text ++ "'"
  | .reservedTarget name => "cannot assign to reserved name '" ++ name ++ "'"

/-- A wording with its place in front. -/
def located (line column : Int) (wording : String) : String :=
  "line " ++ toString line ++ ", column " ++ toString column ++ ": " ++ wording

/-- The place and the wording of an error. -/
def ParseError.message (e : ParseError) : String := located e.line e.column e.reason.message

end Argand
