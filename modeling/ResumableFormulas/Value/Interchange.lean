import ResumableFormulas.Value.Scalar
import ResumableFormulas.Json.Reader
import ResumableFormulas.Json.Writer

/-! # Scalars as JSON

Scalars as JSON documents and as JSON text, in both directions. A number that is not finite has no
JSON form and becomes null; null, arrays and objects have no scalar form.
-/
namespace ResumableFormulas.Scalar
open Binary64

/-- The document of a scalar. -/
def toJson : Scalar → Json
  | .number x => if (datum x).isFinite then .number (.real x) else .null
  | .text s => .text s
  | .truth b => .boolean b

/-- The scalar of a document. -/
def ofJson? : Json → Option Scalar
  | .number n => some (.number n.toFloat)
  | .text s => some (.text s)
  | .boolean b => some (.truth b)
  | .null | .array _ | .object _ => none

/-- The JSON text of a scalar, written directly. -/
def toJsonText : Scalar → String
  | .number x => if (datum x).isFinite then Layout.json.write x else "null"
  | .text s => String.ofList (JsonText.quote s.toList)
  | .truth b => if b then "true" else "false"

/-- Why a text is not read as a scalar. -/
inductive ReadError where
  /-- The text does not begin with a JSON document, or something follows one that is a scalar. -/
  | malformed
  /-- The text begins with a document of a kind that scalars do not have, whatever follows it. -/
  | wrongKind
deriving DecidableEq, Repr

/-- A document taken for a number. -/
def numberOf? : Json → Option Scalar
  | .number (.whole n) => some (.number (ofInt n))
  | .number (.real x) => some (.number x)
  | _ => none

/-- A document taken for a text. -/
def textOf? : Json → Option Scalar
  | .text s => some (.text s)
  | _ => none

/-- A document taken for a truth value. -/
def truthOf? : Json → Option Scalar
  | .boolean b => some (.truth b)
  | _ => none

/-- Reads a scalar from JSON text, trying the kinds one after another on the first document. What
follows the document counts only once its kind is found. -/
def readJson (s : String) : Except ReadError Scalar :=
  match Json.first? s.toList with
  | none => .error .malformed
  | some (document, rest) =>
    match [numberOf?, textOf?, truthOf?].findSome? (· document) with
    | none => .error .wrongKind
    | some scalar => if Json.skipBlanks rest = [] then .ok scalar else .error .malformed

end ResumableFormulas.Scalar
