import ResumableFormulas.Json.Number
import ResumableFormulas.Json.Text

/-! # Reading JSON

A strict reader: no comments, no trailing commas, nothing but blanks around a document, and at most
127 arrays and objects inside one another. The steps of reading a document nest no deeper than the
number of its characters, so the length of the text bounds them.
-/
namespace ResumableFormulas.Json

/-- Drops the blanks of JSON. -/
def skipBlanks (cs : List Char) : List Char :=
  cs.dropWhile fun c => c = ' ' ∨ c = '\n' ∨ c = '\t' ∨ c = '\r'

mutual

/-- Splits off a document. -/
def document? (depth : Nat) : Nat → List Char → Option (Json × List Char)
  | 0, _ => none
  | fuel + 1, cs =>
    match skipBlanks cs with
    | 'n' :: 'u' :: 'l' :: 'l' :: rest => some (.null, rest)
    | 't' :: 'r' :: 'u' :: 'e' :: rest => some (.boolean true, rest)
    | 'f' :: 'a' :: 'l' :: 's' :: 'e' :: rest => some (.boolean false, rest)
    | '"' :: rest => do
      let (s, rest) ← JsonText.read? rest
      return (.text s, rest)
    | '[' :: rest =>
      if depth ≤ 1 then none
      else match skipBlanks rest with
        | ']' :: rest => some (.array [], rest)
        | rest => do
          let (found, rest) ← items? (depth - 1) fuel rest
          return (.array found, rest)
    | '{' :: rest =>
      if depth ≤ 1 then none
      else match skipBlanks rest with
        | '}' :: rest => some (.object [], rest)
        | rest => do
          let (found, rest) ← fields? (depth - 1) fuel rest
          return (.object found, rest)
    | rest => do
      let (numeral, rest) ← Numeral.scan? rest
      return (.number (← numeral.value?), rest)

/-- Splits off the remaining items of an array and its closing bracket. -/
def items? (depth : Nat) : Nat → List Char → Option (List Json × List Char)
  | 0, _ => none
  | fuel + 1, cs => do
    let (item, rest) ← document? depth fuel cs
    match skipBlanks rest with
    | ']' :: rest => return ([item], rest)
    | ',' :: rest =>
      let (found, rest) ← items? depth fuel rest
      return (item :: found, rest)
    | _ => none

/-- Splits off the remaining fields of an object and its closing brace. -/
def fields? (depth : Nat) : Nat → List Char → Option (List (String × Json) × List Char)
  | 0, _ => none
  | fuel + 1, cs =>
    match skipBlanks cs with
    | '"' :: rest => do
      let (name, rest) ← JsonText.read? rest
      match skipBlanks rest with
      | ':' :: rest =>
        let (value, rest) ← document? depth fuel rest
        match skipBlanks rest with
        | '}' :: rest => return ([(name, value)], rest)
        | ',' :: rest =>
          let (found, rest) ← fields? depth fuel rest
          return ((name, value) :: found, rest)
        | _ => none
      | _ => none
    | _ => none

end

/-- The number of levels at which a document is refused. -/
def depthLimit : Nat := 128

/-- Splits the first document off a text, whatever follows it. -/
def first? (cs : List Char) : Option (Json × List Char) :=
  document? depthLimit (cs.length + 1) cs

/-- Reads a text that is one JSON document. -/
def read? (s : String) : Option Json :=
  match first? s.toList with
  | some (document, rest) => if skipBlanks rest = [] then some document else none
  | none => none

end ResumableFormulas.Json
