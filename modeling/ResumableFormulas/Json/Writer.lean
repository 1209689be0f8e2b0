import ResumableFormulas.Json.Number
import ResumableFormulas.Json.Text
import ResumableFormulas.Number.Layout

/-! # Writing JSON

The compact text of a document, without blanks.
-/
namespace ResumableFormulas

/-- The text of an integer. -/
def JsonNumber.wholeCharacters : Int → List Char
  | .ofNat n => Nat.toDigits 10 n
  | .negSucc n => '-' :: Nat.toDigits 10 (n + 1)

/-- The text of a number. -/
def JsonNumber.characters : JsonNumber → List Char
  | .whole n => wholeCharacters n
  | .real x => Layout.json.characters x

namespace Json

mutual

/-- The text of a document. -/
def characters : Json → List Char
  | .null => "null".toList
  | .boolean true => "true".toList
  | .boolean false => "false".toList
  | .number n => n.characters
  | .text s => JsonText.quote s.toList
  | .array [] => ['[', ']']
  | .array (item :: items) => '[' :: (characters item ++ itemCharacters items)
  | .object [] => ['{', '}']
  | .object ((name, value) :: fields) =>
    '{' :: (JsonText.quote name.toList ++ ':' :: (characters value ++ fieldCharacters fields))

/-- The items after the first, and the closing bracket. -/
def itemCharacters : List Json → List Char
  | [] => [']']
  | item :: items => ',' :: (characters item ++ itemCharacters items)

/-- The fields after the first, and the closing brace. -/
def fieldCharacters : List (String × Json) → List Char
  | [] => ['}']
  | (name, value) :: fields =>
    ',' :: (JsonText.quote name.toList ++ ':' :: (characters value ++ fieldCharacters fields))

end

/-- Writes a document. -/
def write (document : Json) : String := String.ofList document.characters

end Json

end ResumableFormulas
