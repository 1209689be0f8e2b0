import ResumableFormulas.Operator.Table
import ResumableFormulas.Pass.Operation

/-! # Operators on values

Operations on scalars lifted to values. Both operands are coerced before anything else happens, so
that all requests are met in one pass; an object that is no scalar takes the place of the result,
the left one first, and a function as an operand is an error.
-/
namespace ResumableFormulas.Pass

variable {O σ : Type}

/-- Lifts an operation on two scalars. -/
def liftBinary (host : Host O σ) (f : Scalar → Scalar → Pass O σ Value) (origin : O)
    (left right : Value) : Pass O σ (Suspendable Value) := do
  let l ← coerce host origin left
  let r ← coerce host origin right
  l.andThenBoth r fun
    | .object o, _ => return .ready (.object o)
    | .function _, _ => return .ready (.builtin .functionOperand)
    | .scalar _, .function _ => return .ready (.builtin .functionOperand)
    | .scalar _, .object o => return .ready (.object o)
    | .scalar a, .scalar b => do return .ready (← f a b)

/-- Lifts an operation on one scalar. -/
def liftUnary (host : Host O σ) (f : Scalar → Pass O σ Scalar) (origin : O) (operand : Value) :
    Pass O σ (Suspendable Value) := do
  (← coerce host origin operand).mapM fun
    | .object o => return .object o
    | .function _ => return .builtin .functionOperand
    | .scalar a => do return .scalar (← f a)

/-- Guards an operation that divides: a zero divisor is an error, and the operation is not run. -/
def unlessZeroDivisor (f : Scalar → Scalar → Pass O σ Value) (a b : Scalar) : Pass O σ Value :=
  if BinaryOperator.isZeroDivisor b then return .builtin .divisionByZero else f a b

/-- An operator of the table between two values. -/
def binary (host : Host O σ) (operator : BinaryOperator) : O → Value → Value →
    Pass O σ (Suspendable Value) :=
  liftBinary host fun a b => return operator.onScalars a b

/-- An operator of the table before a value. A plus hands its operand back as it is. -/
def unary (host : Host O σ) (operator : UnaryOperator) (origin : O) (operand : Value) :
    Pass O σ (Suspendable Value) :=
  match operator with
  | .plus => return .ready operand
  | .minus => liftUnary host (fun a => return a.negated) origin operand

end ResumableFormulas.Pass
