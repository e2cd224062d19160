import Argand.Operation
import Argand.ComplexNumber.Print

/-!
# Lexemes

The pieces that a line of a formula is cut into before it is read.

## Main definitions

* `Mark` — parentheses and operator signs.
* `Lexeme.Kind` — a number, a name or a mark.
* `Lexeme` — a piece with its place in the line.
* `isNameStart`, `isNameChar` — the characters of names.
* `isUnit` — the letters of the imaginary unit.
-/

namespace Argand

/-- A sign of a formula. -/
inductive Mark
  | leftParen
  | rightParen
  | plus
  | minus
  | star
  | slash
  | caret
  | doubleStar
  deriving DecidableEq, Repr

/-- How a mark is written. -/
def Mark.text : Mark → String
  | .leftParen => "("
  | .rightParen => ")"
  | .plus => "+"
  | .minus => "-"
  | .star => "*"
  | .slash => "/"
  | .caret => "^"
  | .doubleStar => "**"

/-- What a lexeme is. -/
inductive Lexeme.Kind
  | number (value : ComplexNumber Float)
  | name (text : String)
  | mark (mark : Mark)
  deriving DecidableEq, Repr

/-- A lexeme with the column it starts at and the number of its characters. -/
structure Lexeme where
  kind : Lexeme.Kind
  column : Nat
  width : Nat
  deriving DecidableEq, Repr

/-- How a lexeme is named in a message: a number by its value, anything else as
it is written. -/
def Lexeme.Kind.text : Lexeme.Kind → String
  | .number value => value.print ComplexNumber.defaultPlaces
  | .name text => text
  | .mark m => m.text

/-- A character that a name can start with. -/
def isNameStart (c : Char) : Bool := c.isAlpha || c == '_'

/-- A character that a name can go on with. -/
def isNameChar (c : Char) : Bool := c.isAlphanum || c == '_'

/-- A letter of the imaginary unit. -/
def isUnit (c : Char) : Bool := c == 'i' || c == 'I' || c == 'j' || c == 'J'

/-- A letter of the imaginary unit can start a name. -/
theorem isNameStart_of_isUnit {c : Char} (h : isUnit c) : isNameStart c := by
  simp only [isUnit, Bool.or_eq_true, beq_iff_eq] at h
  rcases h with ((rfl | rfl) | rfl) | rfl <;> decide

/-- What starts a name can also go on with it. -/
theorem isNameChar_of_isNameStart {c : Char} (h : isNameStart c) : isNameChar c := by
  simp only [isNameStart, isNameChar, Char.isAlphanum, Bool.or_eq_true] at h ⊢
  exact h.imp Or.inl id

end Argand
