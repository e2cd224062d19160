import Argand.Formula.Lexer
import Argand.Formula.Production
import Argand.Text.Lines

/-!
# Reading formulas

A formula is a text of several lines.  A line is blank, a comment, an assignment
`= name` that takes the last value off, a bare number, a bare operation that
works on the values before it, or an expression.

A reader works its way through the lines with one line and one cursor at hand;
they stay as the last expression left them, and no later line looks at them.

## Main definitions

* `isReserved name` — names with a meaning of their own.
* `readAssignment` — the name that a line assigns to.
* `Reader`, `Reader.readExpression`, `Reader.readLine`, `Reader.readLines`,
  `Reader.read` — reading with what an earlier reading left behind.
* `parseLine`, `Program.parse` — reading with a new reader.
-/

namespace Argand

open Text

/-! ### Assignments -/

/-- The names that have a meaning of their own. -/
def isReserved (name : String) : Bool :=
  name == Formula.inputName || Formula.unitNames.contains name || Operation.symbols.contains name

/-- Whether a text is a name from end to end. -/
def isName : List Char → Bool
  | [] => false
  | c :: cs => isNameStart c && cs.all isNameChar

/-- The sign of an assignment. -/
def assignmentSign : Char := '='

/-- The sign of a comment. -/
def commentSign : Char := '#'

/-- Reads the assignment of a line that contains its sign.  Its place is the first
character after the sign that is not blank. -/
def readAssignment (raw : List Char) (number : Int) : Except ParseError Token :=
  let start := raw.idxOf assignmentSign + 1
  let target := raw.drop start
  let name := String.ofList (trim target)
  let column := start + indent target
  if !isName (trim target) then .error ⟨number, column, .invalidTarget name⟩
  else if isReserved name then .error ⟨number, column, .reservedTarget name⟩
  else .ok ⟨.assign name, number⟩

/-! ### Readers -/

/-- What a reader has at hand: a line and a cursor in it. -/
structure Reader where
  line : Line
  cursor : Cursor
  deriving DecidableEq, Repr

namespace Reader

/-- A reader that has read nothing. -/
def new : Reader := ⟨⟨0, 0⟩, ⟨[], #[]⟩⟩

/-- Reads a line as an expression. -/
def readExpression (r : Reader) (raw : List Char) (number : Int) :
    Except ParseError (List Token) × Reader :=
  let line : Line := ⟨number, contentEnd raw⟩
  match Lexer.lexemes raw number with
  | .error e => (.error e, { r with line })
  | .ok lexemes =>
    match Formula.readLexemes line ⟨lexemes, #[]⟩ with
    | .error e => (.error e.error, ⟨line, e.cursor⟩)
    | .ok cursor => (.ok cursor.output.toList, ⟨line, cursor⟩)

/-- The token of a line that is a single literal, operation or name of the
input. -/
def loneKind? (text : List Char) : Option Token.Kind :=
  match Literal.read? text with
  | some z => some (.number z)
  | none =>
    match Operation.ofSymbol? (String.ofList text) with
    | some op => some (.operation op)
    | none => if String.ofList text = Formula.inputName then some .input else none

/-- Reads a line that is neither a comment nor an assignment. -/
def readLine (r : Reader) (raw : List Char) (number : Int) :
    Except ParseError (List Token) × Reader :=
  match trim raw with
  | [] => (.ok [], r)
  | text =>
    match loneKind? text with
    | some kind => (.ok [⟨kind, number⟩], r)
    | none => r.readExpression raw number

/-- Reads a line of any kind. -/
def readAnyLine (r : Reader) (raw : List Char) (number : Int) :
    Except ParseError (List Token) × Reader :=
  match trim raw with
  | [] => (.ok [], r)
  | c :: _ =>
    if c = commentSign then (.ok [], r)
    else if c = assignmentSign then ((readAssignment raw number).map ([·]), r)
    else r.readLine raw number

/-- Reads lines one after the other, the first of which has a given number, and
stops at the first that cannot be read. -/
def readLines (r : Reader) (number : Int) :
    List (List Char) → Except ParseError (List Token) × Reader
  | [] => (.ok [], r)
  | raw :: rest =>
    match r.readAnyLine raw number with
    | (.error e, s) => (.error e, s)
    | (.ok tokens, s) =>
      let (result, t) := s.readLines (number + 1) rest
      (result.map (tokens ++ ·), t)

/-- Reads a formula. -/
def read (r : Reader) (text : String) : Except ParseError Program × Reader :=
  let (result, s) := r.readLines 1 (lines text.toList)
  (result.map (⟨·, text⟩), s)

end Reader

/-! ### Reading once -/

/-- The tokens of a line that is neither a comment nor an assignment. -/
def parseLine (text : String) (number : Int) : Except ParseError (List Token) :=
  (Reader.new.readLine text.toList number).1

/-- The program of a formula. -/
def Program.parse (text : String) : Except ParseError Program := (Reader.new.read text).1

example : (parseLine "-x^2" 1).toOption = some
    [⟨.input, 1⟩, ⟨.number ⟨2, 0⟩, 1⟩, ⟨.operation (.binary .pow), 1⟩,
     ⟨.operation (.unary .neg), 1⟩] := by decide +kernel

example : (match Program.parse "x\n(2" with | .error e => e.message | .ok _ => "") =
    "line 2, column 0: unmatched '('" := by decide +kernel

end Argand
