import ResumableFormulas.Value.Scalar

/-! # Values

A value is a scalar, an object or a function. Objects and functions of the host are known by handles
only, and two of them are the same iff their handles are. Errors are objects too: every property of
an error but its text is the error itself, which carries it unchanged through reads and operators.
-/
namespace ResumableFormulas

/-- The identity of something the host made: the name of its definition, and zero for the one thing
that has this name or else the serial number of a copy. -/
structure Handle where
  name : String
  serial : Nat
deriving DecidableEq, Repr

/-- The error conditions known to the library. -/
inductive BuiltinError where
  /-- Applying a value that is no function. -/
  | notAFunction
  | divisionByZero
  /-- Calling a function with the wrong number of arguments, for hosts that check it. -/
  | wrongArity
  /-- Using a function where an operator needs a scalar. -/
  | functionOperand
  /-- Using something other than a text as the name of a field. -/
  | fieldNotText
  /-- Reading a property of a value that is no object. -/
  | notAnObject
deriving DecidableEq, Repr

namespace BuiltinError

/-- The error conditions in their fixed order. -/
def all : List BuiltinError :=
  [notAFunction, divisionByZero, wrongArity, functionOperand, fieldNotText, notAnObject]

def message : BuiltinError → String
  | notAFunction => "Cannot apply a value that is not a function"
  | divisionByZero => "Division by zero"
  | wrongArity => "Wrong number of arguments for function"
  | functionOperand => "A function cannot be used as an operand"
  | fieldNotText => "Field name must be a string"
  | notAnObject => "Cannot read a property of a value that is not an object"

end BuiltinError

/-- An error object: one of the builtin conditions, or one made with a message of its own. -/
inductive ErrorObject where
  | builtin (kind : BuiltinError)
  | custom (handle : Handle) (message : String)
deriving DecidableEq, Repr

def ErrorObject.message : ErrorObject → String
  | .builtin kind => kind.message
  | .custom _ message => message

/-- Something with properties. -/
inductive Object where
  | error (e : ErrorObject)
  | host (handle : Handle)
deriving DecidableEq, Repr

/-- A value computed by a formula. -/
inductive Value where
  | scalar (s : Scalar)
  | object (o : Object)
  | function (handle : Handle)
deriving DecidableEq

namespace Value

def number (x : Float) : Value := .scalar (.number x)
def text (s : String) : Value := .scalar (.text s)
def truth (b : Bool) : Value := .scalar (.truth b)

/-- The object of a builtin error. -/
def builtin (kind : BuiltinError) : Value := .object (.error (.builtin kind))

/-- Equality of scalars, identity of objects and functions. -/
def equal : Value → Value → Bool
  | .scalar a, .scalar b => a.equal b
  | .object a, .object b => a = b
  | .function a, .function b => a = b
  | _, _ => false

/-- The kind of a value in words. -/
def kindName : Value → String
  | .scalar _ => "primitive"
  | .object _ => "object"
  | .function _ => "function"

end Value

/-- A property of an object. The two reserved ones differ from every named field. -/
inductive Property where
  /-- The object taken for a scalar, in arithmetic and conditions. -/
  | asScalar
  /-- The object taken for a text to be read by people. -/
  | asText
  | field (name : String)
deriving DecidableEq, Repr

/-- The name of a property; a field is written by its name alone. -/
def Property.name : Property → String
  | .asScalar => "AsPrimitive"
  | .asText => "AsString"
  | .field name => name

/-- What an error answers when it is read. -/
def ErrorObject.read (e : ErrorObject) : Property → Value
  | .asText => Value.text e.message
  | _ => .object (.error e)

end ResumableFormulas
