import ResumableFormulas.Text.Quoted
import ResumableFormulas.Value.Basic

/-! # Values for inspection

The texts that show values and their parts to a programmer. The identity of an object or a function
is not part of them and shows as an underscore.
-/
namespace ResumableFormulas

/-- A name around the text of its one part. -/
def Text.wrapped (name part : String) : String := name ++ "(" ++ part ++ ")"

/-- The text for something known by its identity only. -/
def Text.anonymous (name : String) : String := Text.wrapped name "_"

def Scalar.inspect : Scalar → String
  | .number x => Text.wrapped "Number" (Layout.inspected.write x)
  | .text s => Text.wrapped "String" (Text.quoted s)
  | .truth b => Text.wrapped "Boolean" (if b then "true" else "false")

def ErrorObject.inspect (e : ErrorObject) : String :=
  "ErrorObj \x7b message: " ++ Text.quoted e.message ++ " \x7d"

def Value.inspect : Value → String
  | .scalar s => Text.wrapped "Primitive" s.inspect
  | .object _ => Text.anonymous "Object"
  | .function _ => Text.anonymous "CalcFun"

end ResumableFormulas
