import ResumableFormulas.Value.Basic

/-! # The operators of formulas

The operators by their symbols, and what each does to scalars.
-/
namespace ResumableFormulas

/-- A symbol that is no operator. -/
structure UnknownOperator where
  symbol : String
deriving DecidableEq, Repr

def UnknownOperator.message (e : UnknownOperator) : String :=
  "unknown operator \x60" ++ e.symbol ++ "\x60"

/-- The operators between two operands. -/
inductive BinaryOperator where
  | add | subtract | multiply | divide
  | equal | less | greater | atMost | atLeast | different
deriving DecidableEq, Repr

/-- The operators before one operand. -/
inductive UnaryOperator where
  | plus | minus
deriving DecidableEq, Repr

namespace BinaryOperator

def all : List BinaryOperator :=
  [add, subtract, multiply, divide, equal, less, greater, atMost, atLeast, different]

def symbol : BinaryOperator → String
  | add => "+"
  | subtract => "-"
  | multiply => "*"
  | divide => "/"
  | equal => "="
  | less => "<"
  | greater => ">"
  | atMost => "<="
  | atLeast => ">="
  | different => "<>"

def ofSymbol (s : String) : Except UnknownOperator BinaryOperator :=
  match all.find? (·.symbol = s) with
  | some operator => .ok operator
  | none => .error ⟨s⟩

@[simp] theorem ofSymbol_symbol (operator : BinaryOperator) :
    ofSymbol operator.symbol = .ok operator := by
  cases operator <;> rfl

/-- Addition joins the texts as soon as one operand is a text. -/
def sum : Scalar → Scalar → Value
  | .text s, b => Value.text (s ++ b.toText)
  | a, .text t => Value.text (a.toText ++ t)
  | a, b => Value.number (a.toNumber + b.toNumber)

/-- An operation on the numbers of both operands. -/
def numeric (f : Float → Float → Float) (a b : Scalar) : Value :=
  Value.number (f a.toNumber b.toNumber)

/-- A comparison; operands without an order fail it. -/
def ordered (accept : Ordering → Bool) (a b : Scalar) : Value :=
  Value.truth ((a.order b).any accept)

/-- Whether a divisor counts as zero. -/
def isZeroDivisor (b : Scalar) : Bool := Binary64.isZero b.toNumber

/-- What an operator does to two scalars. A divisor of zero is an error. -/
def onScalars : BinaryOperator → Scalar → Scalar → Value
  | add, a, b => sum a b
  | subtract, a, b => numeric (· - ·) a b
  | multiply, a, b => numeric (· * ·) a b
  | divide, a, b =>
    if isZeroDivisor b then Value.builtin .divisionByZero else numeric (· / ·) a b
  | equal, a, b => Value.truth (a.equal b)
  | less, a, b => ordered Ordering.isLT a b
  | greater, a, b => ordered Ordering.isGT a b
  | atMost, a, b => ordered Ordering.isLE a b
  | atLeast, a, b => ordered Ordering.isGE a b
  | different, a, b => Value.truth (!a.equal b)

end BinaryOperator

namespace UnaryOperator

def all : List UnaryOperator := [plus, minus]

def symbol : UnaryOperator → String
  | plus => "+"
  | minus => "-"

def ofSymbol (s : String) : Except UnknownOperator UnaryOperator :=
  match all.find? (·.symbol = s) with
  | some operator => .ok operator
  | none => .error ⟨s⟩

@[simp] theorem ofSymbol_symbol (operator : UnaryOperator) :
    ofSymbol operator.symbol = .ok operator := by
  cases operator <;> rfl

end UnaryOperator

/-- The number of a scalar with its sign changed. -/
def Scalar.negated (a : Scalar) : Scalar := .number (-a.toNumber)

end ResumableFormulas
