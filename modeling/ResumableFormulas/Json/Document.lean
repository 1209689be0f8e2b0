/-! # JSON documents

Documents as read: numbers keep the kind in which they were written, and the fields of an object
their order.
-/
namespace ResumableFormulas

/-- A JSON number. Whole numbers between -2⁶³ and 2⁶⁴ - 1 written without fraction and exponent stay
integers; a negative zero and all others are binary64 numbers. -/
inductive JsonNumber where
  | whole (n : Int)
  | real (x : Float)

/-- A JSON document. -/
inductive Json where
  | null
  | boolean (b : Bool)
  | number (n : JsonNumber)
  | text (s : String)
  | array (items : List Json)
  | object (fields : List (String × Json))

/-- The value of a field; of fields with one name the last counts. -/
def Json.field? (name : String) : Json → Option Json
  | .object fields => (fields.reverse.find? fun field => field.1 = name).map (·.2)
  | _ => none

end ResumableFormulas
