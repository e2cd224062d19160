import Argand.ComplexNumber.Functions

/-!
# Operations

The operations of a formula, each with the symbol it is written with and its
value on complex numbers.  Operators stand between two operands; functions take
one.

## Main definitions

* `BinaryOperation`, `UnaryOperation`, `Operation` — what there is.
* `Operation.symbol`, `Operation.ofSymbol?` — how an operation is written; the
  power has a second spelling.
* `Operation.arity` — how many operands it takes.
* `Operation.apply` — its value on a list of operands.
-/

namespace Argand

/-- An operator between two operands. -/
inductive BinaryOperation
  | add
  | sub
  | mul
  | div
  | pow
  deriving DecidableEq, Repr

/-- A function of one operand. -/
inductive UnaryOperation
  | neg
  | ln
  | exp
  | sqrt
  | abs
  | sin
  | cos
  | tan
  | asin
  | acos
  | atan
  deriving DecidableEq, Repr

/-- An operation of either kind. -/
inductive Operation
  | binary (op : BinaryOperation)
  | unary (op : UnaryOperation)
  deriving DecidableEq, Repr

variable {α : Type} [RealArithmetic α]

/-! ### Operators -/

namespace BinaryOperation

/-- All operators. -/
def all : List BinaryOperation := [.add, .sub, .mul, .div, .pow]

/-- How an operator is written. -/
def symbol : BinaryOperation → String
  | .add => "+"
  | .sub => "-"
  | .mul => "*"
  | .div => "/"
  | .pow => "^"

/-- The name of an operator in lists of tokens. -/
def name : BinaryOperation → String
  | .add => "ADD"
  | .sub => "SUB"
  | .mul => "MUL"
  | .div => "DIV"
  | .pow => "POW"

/-- The value of an operator. -/
def eval : BinaryOperation → ComplexNumber α → ComplexNumber α → ComplexNumber α
  | .add => .add
  | .sub => .sub
  | .mul => .mul
  | .div => .div
  | .pow => .raise

theorem mem_all (op : BinaryOperation) : op ∈ all := by cases op <;> decide

end BinaryOperation

/-! ### Functions -/

namespace UnaryOperation

/-- All functions. -/
def all : List UnaryOperation :=
  [.neg, .ln, .exp, .sqrt, .abs, .sin, .cos, .tan, .asin, .acos, .atan]

/-- How a function is written. -/
def symbol : UnaryOperation → String
  | .neg => "neg"
  | .ln => "ln"
  | .exp => "exp"
  | .sqrt => "sqrt"
  | .abs => "abs"
  | .sin => "sin"
  | .cos => "cos"
  | .tan => "tan"
  | .asin => "asin"
  | .acos => "acos"
  | .atan => "atan"

/-- The name of a function in lists of tokens. -/
def name : UnaryOperation → String
  | .neg => "NEG"
  | .ln => "LN"
  | .exp => "EXP"
  | .sqrt => "SQRT"
  | .abs => "ABS"
  | .sin => "SIN"
  | .cos => "COS"
  | .tan => "TAN"
  | .asin => "ASIN"
  | .acos => "ACOS"
  | .atan => "ATAN"

/-- The value of a function. -/
def eval : UnaryOperation → ComplexNumber α → ComplexNumber α
  | .neg => .neg
  | .ln => .ln
  | .exp => .exp
  | .sqrt => .sqrt
  | .abs => .abs
  | .sin => .sin
  | .cos => .cos
  | .tan => .tan
  | .asin => .asin
  | .acos => .acos
  | .atan => .atan

/-- The function that a name stands for. -/
def ofSymbol? (s : String) : Option UnaryOperation := all.find? (·.symbol == s)

theorem mem_all (op : UnaryOperation) : op ∈ all := by cases op <;> decide

@[simp] theorem ofSymbol?_symbol (op : UnaryOperation) : ofSymbol? op.symbol = some op := by
  cases op <;> decide

/-- A name stands for the function that is written like it. -/
theorem ofSymbol?_eq_some_iff {s : String} {op : UnaryOperation} :
    ofSymbol? s = some op ↔ op.symbol = s := by
  constructor
  · intro h
    simpa using List.find?_some h
  · rintro rfl
    exact ofSymbol?_symbol op

/-- A name stands for no function if none is written like it. -/
theorem ofSymbol?_eq_none_iff {s : String} :
    ofSymbol? s = none ↔ ∀ op : UnaryOperation, op.symbol ≠ s := by
  simp only [Option.eq_none_iff_forall_ne_some, ne_eq, ofSymbol?_eq_some_iff]

/-- Different functions are written differently. -/
theorem symbol_injective {f g : UnaryOperation} (h : f.symbol = g.symbol) : f = g := by
  have hf := ofSymbol?_symbol f
  rw [h, ofSymbol?_symbol g] at hf
  exact (Option.some.inj hf).symm

end UnaryOperation

/-! ### Operations of either kind -/

/-- Operands in the wrong number for an operation. -/
structure ArityError where
  operation : Operation
  deriving DecidableEq, Repr

namespace Operation

/-- All operations, operators first. -/
def all : List Operation := BinaryOperation.all.map binary ++ UnaryOperation.all.map unary

/-- How an operation is written. -/
def symbol : Operation → String
  | binary op => op.symbol
  | unary op => op.symbol

/-- The name of an operation in lists of tokens. -/
def name : Operation → String
  | binary op => op.name
  | unary op => op.name

/-- How many operands an operation takes. -/
def arity : Operation → Nat
  | binary _ => 2
  | unary _ => 1

/-- Whether an operation is written as a name in front of its operand. -/
def isFunction : Operation → Bool
  | binary _ => false
  | unary _ => true

/-- The second spelling of the power. -/
def doubleStar : String := "**"

/-- All symbols, the second spelling of the power last. -/
def symbols : List String := all.map symbol ++ [doubleStar]

/-- The operation that a symbol stands for. -/
def ofSymbol? (s : String) : Option Operation :=
  if s = doubleStar then some (binary .pow) else all.find? (·.symbol == s)

/-- The operation with a given name. -/
def ofName? (s : String) : Option Operation := all.find? (·.name == s)

/-- The value of an operation on operands in the order they are written. -/
def apply : Operation → List (ComplexNumber α) → Except ArityError (ComplexNumber α)
  | binary op, [z, w] => .ok (op.eval z w)
  | unary op, [z] => .ok (op.eval z)
  | op, _ => .error ⟨op⟩

@[simp] theorem apply_binary (op : BinaryOperation) (z w : ComplexNumber α) :
    (binary op).apply [z, w] = .ok (op.eval z w) := rfl

@[simp] theorem apply_unary (op : UnaryOperation) (z : ComplexNumber α) :
    (unary op).apply [z] = .ok (op.eval z) := rfl

theorem mem_all (op : Operation) : op ∈ all := by
  cases op with
  | binary op => cases op <;> decide
  | unary op => cases op <;> decide

@[simp] theorem ofSymbol?_symbol (op : Operation) : ofSymbol? op.symbol = some op := by
  cases op with
  | binary op => cases op <;> decide
  | unary op => cases op <;> decide

@[simp] theorem ofName?_name (op : Operation) : ofName? op.name = some op := by
  cases op with
  | binary op => cases op <;> decide
  | unary op => cases op <;> decide

end Operation

/-- The wording of the error. -/
def ArityError.message (e : ArityError) : String :=
  e.operation.symbol ++ " takes " ++ toString e.operation.arity ++ " argument(s)"

end Argand
