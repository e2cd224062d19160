import Argand.Formula.ParseError
import Argand.Program

/-!
# Reading expressions

Recursive descent over the lexemes of a line.  Each production reads from a
cursor, which holds the lexemes still unread and the tokens written so far, and
writes the postfix form of what it has read.

    expression := term (('+' | '-') term)*
    term       := signed (('*' | '/') signed)*
    signed     := ('+' | '-') signed | power
    power      := atom [('^' | '**') signed]
    atom       := number | name | function atom | '(' expression ')'

A minus sign in front of a single number changes that number; in front of
anything else it is an operation of its own.

## Main definitions

* `Line` — what the productions need to know about the line.
* `Cursor` — unread lexemes and written tokens.
* `Stopped` — an error, with the cursor where reading stopped.
* `expression`, `term`, `signed`, `power`, `atom` — the productions.  Their results
  carry the fact that lexemes were used up, which is why they end.
* `readLexemes` — an expression that takes up the whole line.
-/

namespace Argand

/-- The number of a line, and the column just after its last character that is
not blank. -/
structure Line where
  number : Int
  stop : Nat
  deriving DecidableEq, Repr

/-- The lexemes still to be read and the tokens written so far. -/
structure Cursor where
  unread : List Lexeme
  output : Array Token
  deriving DecidableEq, Repr

/-- An error and the cursor where reading stopped. -/
structure Stopped where
  error : ParseError
  cursor : Cursor
  deriving DecidableEq, Repr

namespace Cursor

/-- Writes a token. -/
def emit (s : Cursor) (line : Line) (k : Token.Kind) : Cursor :=
  { s with output := s.output.push ⟨k, line.number⟩ }

/-- Writes the negation of what was written last: a number is negated at once. -/
def negateLast (s : Cursor) (line : Line) : Cursor :=
  match s.output.back? with
  | some ⟨.number z, _⟩ => { s with output := s.output.pop.push ⟨.number z.neg, line.number⟩ }
  | _ => s.emit line (.operation (.unary .neg))

@[simp] theorem emit_unread (s : Cursor) (line : Line) (k : Token.Kind) :
    (s.emit line k).unread = s.unread := rfl

@[simp] theorem emit_output (s : Cursor) (line : Line) (k : Token.Kind) :
    (s.emit line k).output = s.output.push ⟨k, line.number⟩ := rfl

@[simp] theorem negateLast_unread (s : Cursor) (line : Line) :
    (s.negateLast line).unread = s.unread := by
  unfold negateLast
  split <;> rfl

end Cursor

/-! ### Results of productions -/

/-- A cursor with fewer unread lexemes than `s`. -/
abbrev Cursor.After (s : Cursor) : Type := { t : Cursor // t.unread.length < s.unread.length }

/-- A cursor with no more unread lexemes than `s`. -/
abbrev Cursor.FromHere (s : Cursor) : Type := { t : Cursor // t.unread.length ≤ s.unread.length }

namespace Formula

/-- Stops with a reason at a column. -/
def stopAt {β : Type} (line : Line) (s : Cursor) (column : Nat) (reason : ParseError.Reason) :
    Except Stopped β :=
  .error ⟨⟨line.number, column, reason⟩, s⟩

/-! ### What lexemes stand for -/

/-- The operation of a sign between terms. -/
def additive? : Lexeme.Kind → Option BinaryOperation
  | .mark .plus => some .add
  | .mark .minus => some .sub
  | _ => none

/-- The operation of a sign between factors. -/
def multiplicative? : Lexeme.Kind → Option BinaryOperation
  | .mark .star => some .mul
  | .mark .slash => some .div
  | _ => none

/-- Whether a lexeme is a sign of the power. -/
def isPower : Lexeme.Kind → Bool
  | .mark .caret => true
  | .mark .doubleStar => true
  | _ => false

/-- The name of the point at which a formula is evaluated. -/
def inputName : String := "x"

/-- The spellings of the imaginary unit. -/
def unitNames : List String := ["i", "I", "j", "J"]

/-- What a name that is not a function stands for. -/
def nameKind (name : String) : Token.Kind :=
  if name = inputName then .input
  else if unitNames.contains name then .number .i
  else .identifier name

/-- Whether the next lexeme is an opening parenthesis. -/
def opensNext : List Lexeme → Bool
  | ⟨.mark .leftParen, _, _⟩ :: _ => true
  | _ => false

/-! ### The productions -/

mutual

/-- A sum of terms. -/
def expression (line : Line) (s : Cursor) : Except Stopped s.After :=
  match term line s with
  | .error e => .error e
  | .ok ⟨t, ht⟩ =>
    match moreTerms line t with
    | .error e => .error e
    | .ok ⟨u, hu⟩ => .ok ⟨u, Nat.lt_of_le_of_lt hu ht⟩
termination_by 8 * s.unread.length + 6

/-- The terms that are added to or taken from what was read before. -/
def moreTerms (line : Line) (s : Cursor) : Except Stopped s.FromHere :=
  match hs : s.unread with
  | [] => .ok ⟨s, Nat.le_refl _⟩
  | lexeme :: rest =>
    match additive? lexeme.kind with
    | none => .ok ⟨s, Nat.le_refl _⟩
    | some op =>
      match term line { s with unread := rest } with
      | .error e => .error e
      | .ok ⟨t, ht⟩ =>
        match moreTerms line (t.emit line (.operation (.binary op))) with
        | .error e => .error e
        | .ok ⟨u, hu⟩ => .ok ⟨u, by simp_all; omega⟩
termination_by 8 * s.unread.length
decreasing_by all_goals simp_all; omega

/-- A product of signed factors. -/
def term (line : Line) (s : Cursor) : Except Stopped s.After :=
  match signed line s with
  | .error e => .error e
  | .ok ⟨t, ht⟩ =>
    match moreFactors line t with
    | .error e => .error e
    | .ok ⟨u, hu⟩ => .ok ⟨u, Nat.lt_of_le_of_lt hu ht⟩
termination_by 8 * s.unread.length + 5

/-- The factors that what was read before is multiplied with or divided by. -/
def moreFactors (line : Line) (s : Cursor) : Except Stopped s.FromHere :=
  match hs : s.unread with
  | [] => .ok ⟨s, Nat.le_refl _⟩
  | lexeme :: rest =>
    match multiplicative? lexeme.kind with
    | none => .ok ⟨s, Nat.le_refl _⟩
    | some op =>
      match signed line { s with unread := rest } with
      | .error e => .error e
      | .ok ⟨t, ht⟩ =>
        match moreFactors line (t.emit line (.operation (.binary op))) with
        | .error e => .error e
        | .ok ⟨u, hu⟩ => .ok ⟨u, by simp_all; omega⟩
termination_by 8 * s.unread.length
decreasing_by all_goals simp_all; omega

/-- Signs in front of a power. -/
def signed (line : Line) (s : Cursor) : Except Stopped s.After :=
  match hs : s.unread with
  | [] => power line s
  | lexeme :: rest =>
    match additive? lexeme.kind with
    | none => power line s
    | some op =>
      match signed line { s with unread := rest } with
      | .error e => .error e
      | .ok ⟨t, ht⟩ =>
        -- a plus sign leaves no trace
        if op = .sub then .ok ⟨t.negateLast line, by simp_all; omega⟩
        else .ok ⟨t, by simp_all; omega⟩
termination_by 8 * s.unread.length + 4
decreasing_by all_goals simp_all; try omega

/-- An operand, which may be raised to a power.  The exponent may have a sign and
a power of its own. -/
def power (line : Line) (s : Cursor) : Except Stopped s.After :=
  match atom line s with
  | .error e => .error e
  | .ok ⟨t, ht⟩ =>
    match hs : t.unread with
    | [] => .ok ⟨t, ht⟩
    | lexeme :: rest =>
      if isPower lexeme.kind then
        match signed line { t with unread := rest } with
        | .error e => .error e
        | .ok ⟨u, hu⟩ => .ok ⟨u.emit line (.operation (.binary .pow)), by simp_all; omega⟩
      else .ok ⟨t, ht⟩
termination_by 8 * s.unread.length + 3
decreasing_by all_goals simp_all; try omega

/-- A number, a name, a function with its operand, or an expression in
parentheses. -/
def atom (line : Line) (s : Cursor) : Except Stopped s.After :=
  match hs : s.unread with
  | [] => stopAt line s line.stop .missingOperand
  | lexeme :: rest =>
    match lexeme.kind with
    | .number z => .ok ⟨{ s with unread := rest }.emit line (.number z), by simp_all⟩
    | .mark .leftParen =>
      match expression line { s with unread := rest } with
      | .error e => .error e
      | .ok ⟨t, ht⟩ =>
        match ht' : t.unread with
        | ⟨.mark .rightParen, _, _⟩ :: rest' => .ok ⟨{ t with unread := rest' }, by simp_all; omega⟩
        | _ => stopAt line t lexeme.column .unmatchedOpen
    | .mark m => stopAt line { s with unread := rest } lexeme.column (.expectedOperand (.mark m))
    | .name name =>
      match UnaryOperation.ofSymbol? name with
      | some f =>
        match atom line { s with unread := rest } with
        | .error e => .error e
        | .ok ⟨t, ht⟩ => .ok ⟨t.emit line (.operation (.unary f)), by simp_all; omega⟩
      | none =>
        -- only functions stand in front of a parenthesis
        if opensNext rest then
          stopAt line { s with unread := rest } lexeme.column (.unknownFunction name)
        else .ok ⟨{ s with unread := rest }.emit line (nameKind name), by simp_all⟩
termination_by 8 * s.unread.length + 2
decreasing_by all_goals simp_all; try omega

end

/-! ### Whole lines -/

/-- What a lexeme after a complete expression is taken for. -/
def leftoverReason : Lexeme.Kind → ParseError.Reason
  | .mark .rightParen => .unmatchedClose
  | found => .unexpectedLexeme found

/-- Reads an expression that takes up all the lexemes. -/
def readLexemes (line : Line) (s : Cursor) : Except Stopped Cursor :=
  match expression line s with
  | .error e => .error e
  | .ok ⟨t, _⟩ =>
    match t.unread with
    | [] => .ok t
    | lexeme :: _ => stopAt line t lexeme.column (leftoverReason lexeme.kind)

end Formula

end Argand
