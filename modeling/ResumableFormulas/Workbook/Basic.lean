import ResumableFormulas.Expression.Evaluation
import ResumableFormulas.Session.Basic

/-! # Workbooks

A workbook is a host given by definitions: objects with an answer for each property, functions with
bodies that are expressions, and slots that can be filled and emptied. Only the slots and the count
of serial numbers change. Reading an empty slot makes a new request for it.
-/
namespace ResumableFormulas

/-- How an object answers. A property without an answer of its own takes the common one, and without
that the object answers like a value that is no object. -/
structure ObjectDefinition where
  asScalar : Option Response
  asText : Option Response
  fields : List (String × Response)
  otherwise : Option Response

/-- What a workbook defines, by names. -/
structure Workbook where
  objects : List (String × ObjectDefinition)
  functions : List (String × FunctionDefinition)

/-- The state of a workbook: the filled slots, and the last serial number given out. -/
structure Cells where
  slots : List (String × Value)
  lastSerial : Nat

namespace Cells

def empty : Cells := ⟨[], 0⟩

/-- A serial number that was not given out before. -/
def mint (cells : Cells) : Nat × Cells :=
  (cells.lastSerial + 1, { cells with lastSerial := cells.lastSerial + 1 })

/-- Fills or empties a slot. -/
def put (name : String) (content : Option Value) (cells : Cells) : Cells :=
  let others := cells.slots.filter fun slot => slot.1 != name
  match content with
  | some v => { cells with slots := (name, v) :: others }
  | none => { cells with slots := others }

/-- Fills a slot with the value of a literal, or empties it. -/
def fill (cells : Cells) (name : String) (content : Option Literal) : Cells :=
  match content with
  | some l =>
    let (v, cells) := l.realize mint cells
    cells.put name (some v)
  | none => cells.put name none

/-- Fills and empties slots one after another. -/
def fillAll (cells : Cells) (contents : List (String × Option Literal)) : Cells :=
  contents.foldl (fun cells (name, content) => cells.fill name content) cells

@[simp] theorem lookup_put_some (cells : Cells) (name : String) (v : Value) :
    (cells.put name (some v)).slots.lookup name = some v := by
  simp [put]

@[simp] theorem lookup_put_none (cells : Cells) (name : String) :
    (cells.put name none).slots.lookup name = none := by
  simp only [put, List.lookup_eq_none_iff, List.mem_filter, bne_iff_ne, and_imp]
  intro slot _ h
  simpa using h.symm

theorem lookup_filter_of_ne {name other : String} (h : other ≠ name)
    (slots : List (String × Value)) :
    (slots.filter fun slot => slot.1 != name).lookup other = slots.lookup other := by
  induction slots with
  | nil => rfl
  | cons slot rest ih =>
    obtain ⟨key, v⟩ := slot
    by_cases hk : key = name
    · subst hk
      have hne : (other == key) = false := by simpa using h
      simpa [List.lookup_cons, hne] using ih
    · simp [hk, List.lookup_cons, ih]

theorem lookup_put_of_ne (cells : Cells) {name other : String} (content : Option Value)
    (h : other ≠ name) :
    (cells.put name content).slots.lookup other = cells.slots.lookup other := by
  cases content with
  | none => exact lookup_filter_of_ne h cells.slots
  | some v =>
    have hne : (other == name) = false := by simpa using h
    simpa [put, List.lookup_cons, hne] using lookup_filter_of_ne h cells.slots

end Cells

/-- The answer that a response stands for, given the origin and the name of the property. -/
def Response.answer (response : Response) (origin propertyName : String) (cells : Cells) :
    Answer Value × Cells :=
  match response with
  | .value l => let (v, cells) := l.realize Cells.mint cells; (.value v, cells)
  | .request name => (.pending ⟨.name name, 0⟩, cells)
  | .slot name =>
    match cells.slots.lookup name with
    | some v => (.value v, cells)
    | none => let (n, cells) := cells.mint; (.pending ⟨.name name, n⟩, cells)
  | .origin => (.value (.text origin), cells)
  | .propertyName => (.value (.text propertyName), cells)

/-- The response to a property. -/
def ObjectDefinition.response (o : ObjectDefinition) (property : Property) : Response :=
  let own := match property with
    | .asScalar => o.asScalar
    | .asText => o.asText
    | .field name => o.fields.lookup name
  own.or o.otherwise |>.getD (.value (.value (.builtin .notAnObject)))

namespace Workbook

/-- What a workbook supplies besides its functions. -/
def world (w : Workbook) : World Cells where
  read := fun handle property origin =>
    let definition := (w.objects.lookup handle.name).getD ⟨none, none, [], none⟩
    (definition.response property).answer origin property.name
  respond := fun response origin => response.answer origin ""
  mint := Cells.mint

/-- How deep calls may be nested before they are taken for a recursion without end. -/
def callDepth : Nat := 10000

/-- How the functions of a workbook are called in a pass against the given object. -/
def caller (w : Workbook) (context : Object) : Caller Cells :=
  w.world.caller (fun handle => w.functions.lookup handle.name) context callDepth

/-- The formula of an expression. -/
def formula (w : Workbook) (e : Expr) : Formula String Cells := fun origin context =>
  e.eval w.world (w.caller context) ⟨origin, context, []⟩

end Workbook

end ResumableFormulas
