import ResumableFormulas.Operator.Table

/-! # Expressions

The formulas of a workbook as trees. Besides the operations of a pass, expressions can ask the host
a question of their own, apply bodies to the values of other expressions, and look at the values
they get.
-/
namespace ResumableFormulas

/-- A value written into an expression. The last three make something new whenever they are
evaluated. -/
inductive Literal where
  | value (v : Value)
  | newObject (name : String)
  | newFunction (name : String)
  | newError (message : String)
deriving DecidableEq

/-- How a host answers a reading. -/
inductive Response where
  | value (literal : Literal)
  /-- The request of this name, the same one each time. -/
  | request (name : String)
  /-- What is in the slot, or a new request for it. -/
  | slot (name : String)
  /-- The origin as a text. -/
  | origin
  /-- The name of the property that is read. -/
  | propertyName
deriving DecidableEq

/-- A named operation on one scalar. -/
structure ScalarMap where
  name : String
  onScalar : Scalar → Scalar

/-- A named operation on two scalars. -/
structure ScalarPairing where
  name : String
  onScalars : Scalar → Scalar → Value

/-- An expression. -/
inductive Expr where
  | literal (value : Literal)
  /-- A computation that never becomes ready. -/
  | suspended
  | argument (index : Nat)
  | origin
  /-- The object against which the formula is evaluated. -/
  | context
  /-- A question to the host that is about no object. -/
  | question (response : Response)
  | read (x : Expr) (property : Property) (fallback : Literal)
  | unary (operator : UnaryOperator) (x : Expr)
  | binary (operator : BinaryOperator) (x y : Expr)
  | conditional (condition yes no : Expr)
  /-- A branch of the two, picked by a condition that is known or suspended from the start. -/
  | choice (condition : Option Bool) (yes no : Expr)
  | condition (x : Expr)
  | text (x : Expr)
  /-- A call whose arguments are evaluated as they are needed. -/
  | call (f : Expr) (arguments : List Expr) (fallback : Literal)
  /-- A call whose arguments are all evaluated first. -/
  | strictCall (f : Expr) (arguments : List Expr) (fallback : Literal)
  /-- The number of the items, once all of them are ready. -/
  | count (items : List Expr)
  | mapped (f : ScalarMap) (x : Expr)
  | paired (f : ScalarPairing) (x y : Expr)
  /-- The same for an operation that divides. -/
  | divided (f : ScalarPairing) (x y : Expr)
  /-- A body applied to one value. -/
  | applied (body x : Expr)
  /-- A body applied to two values. -/
  | appliedBoth (body x y : Expr)
  /-- A body applied over and over. -/
  | repeated (times : Nat) (body x : Expr)
  | same (x y : Expr)
  | kind (x : Expr)

namespace ScalarMap

def negation : ScalarMap := ⟨"not", fun a => .truth (!a.toTruth)⟩
def textual : ScalarMap := ⟨"show", fun a => .text a.toText⟩
def identity : ScalarMap := ⟨"id", fun a => a⟩

/-- The operations that workbooks know by name. -/
def named : List ScalarMap := [negation, textual, identity]

end ScalarMap

namespace ScalarPairing

def left : ScalarPairing := ⟨"left", fun a _ => .scalar a⟩
def right : ScalarPairing := ⟨"right", fun _ b => .scalar b⟩

/-- Both texts with a bar between them. -/
def pair : ScalarPairing := ⟨"pair", fun a b => .text (a.toText ++ "|" ++ b.toText)⟩

/-- An error whatever the operands are. -/
def failing : ScalarPairing := ⟨"err", fun _ _ => .builtin .fieldNotText⟩

/-- The operations that workbooks know by name. -/
def named : List ScalarPairing := [left, right, pair, failing]

end ScalarPairing

end ResumableFormulas
