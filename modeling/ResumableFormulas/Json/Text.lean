/-! # JSON strings

Strings between quotes. A quote, a backslash and the control characters below U+0020 are escaped;
`\u` escapes are UTF-16 units, and surrogates have to come in pairs.
-/
namespace ResumableFormulas.JsonText

/-- The two-character escapes besides `\u`: the character behind the backslash and what it means. -/
def shortEscapes : List (Char × Char) :=
  [('"', '"'), ('\\', '\\'), ('/', '/'), ('b', '\x08'), ('f', '\x0c'), ('n', '\n'), ('r', '\r'),
    ('t', '\t')]

/-- A lower-case hexadecimal digit. -/
def hexDigit (n : Nat) : Char := Nat.digitChar n

/-- How a character is written inside a string. -/
def escape (c : Char) : List Char :=
  match c with
  | '"' => ['\\', '"']
  | '\\' => ['\\', '\\']
  | '\x08' => ['\\', 'b']
  | '\x0c' => ['\\', 'f']
  | '\n' => ['\\', 'n']
  | '\r' => ['\\', 'r']
  | '\t' => ['\\', 't']
  | c =>
    if c.toNat < 0x20 then
      ['\\', 'u', '0', '0', hexDigit (c.toNat / 16), hexDigit (c.toNat % 16)]
    else [c]

/-- Writes a string with its quotes. -/
def quote (cs : List Char) : List Char := '"' :: (cs.flatMap escape ++ ['"'])

/-- A part of a string as written: a character, or the UTF-16 unit of an escape. -/
inductive Piece where
  | character (c : Char)
  | unit (n : Nat)

/-- The value of a hexadecimal digit. -/
def hexValue? (c : Char) : Option Nat :=
  if c.isDigit then some (c.toNat - '0'.toNat)
  else if 'a' ≤ c ∧ c ≤ 'f' then some (c.toNat - 'a'.toNat + 10)
  else if 'A' ≤ c ∧ c ≤ 'F' then some (c.toNat - 'A'.toNat + 10)
  else none

/-- The unit of four hexadecimal digits. -/
def unit? (a b c d : Char) : Option Nat := do
  return (((← hexValue? a) * 16 + (← hexValue? b)) * 16 + (← hexValue? c)) * 16 + (← hexValue? d)

/-- Splits a string after its opening quote into its pieces and what follows its closing quote. -/
def pieces? : List Char → Option (List Piece × List Char)
  | [] => none
  | '"' :: rest => some ([], rest)
  | '\\' :: 'u' :: a :: b :: c :: d :: rest => do
    let n ← unit? a b c d
    let (found, rest) ← pieces? rest
    return (.unit n :: found, rest)
  | '\\' :: e :: rest => do
    let meaning ← shortEscapes.lookup e
    let (found, rest) ← pieces? rest
    return (.character meaning :: found, rest)
  | c :: rest =>
    if c.toNat < 0x20 ∨ c = '\\' then none
    else do
      let (found, rest) ← pieces? rest
      return (.character c :: found, rest)

/-- The character of a surrogate pair. -/
def ofSurrogates (high low : Nat) : Char :=
  Char.ofNat (0x10000 + (high - 0xd800) * 0x400 + (low - 0xdc00))

/-- Joins pieces; a surrogate without its partner is refused. -/
def join? : List Piece → Option (List Char)
  | [] => some []
  | .character c :: rest => (join? rest).map (c :: ·)
  | .unit n :: rest =>
    if 0xd800 ≤ n ∧ n < 0xdc00 then
      match rest with
      | .unit low :: rest =>
        if 0xdc00 ≤ low ∧ low < 0xe000 then (join? rest).map (ofSurrogates n low :: ·) else none
      | _ => none
    else if 0xdc00 ≤ n ∧ n < 0xe000 then none
    else (join? rest).map (Char.ofNat n :: ·)

/-- Splits off a string after its opening quote. -/
def read? (cs : List Char) : Option (String × List Char) := do
  let (found, rest) ← pieces? cs
  return (String.ofList (← join? found), rest)

end ResumableFormulas.JsonText
