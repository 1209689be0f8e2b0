import ResumableFormulas.Json.Document
import ResumableFormulas.Number.Decimal
import ResumableFormulas.Number.Digits

/-! # JSON numbers

A numeral is scanned by the grammar of JSON and then valued. The significand takes digits as long as
it fits into 64 bits; a number that is not an integer of that size is the significand rounded to
binary64 and then multiplied or divided by a rounded power of ten. So it is rounded up to three
times and need not be the number nearest to the numeral.
-/
namespace ResumableFormulas

/-- A numeral taken apart, digits as characters. -/
structure Numeral where
  negative : Bool
  whole : List Char
  fraction : Option (List Char)
  /-- The sign and the digits of the exponent. -/
  exponent : Option (Bool × List Char)

namespace Numeral
open Binary64

/-- Splits off the leading digits, of which there has to be one. -/
def digits? (cs : List Char) : Option (List Char × List Char) :=
  match cs.takeWhile Char.isDigit with
  | [] => none
  | ds => some (ds, cs.dropWhile Char.isDigit)

/-- Splits off the digits before the point: a single zero, or digits that do not begin with one. -/
def whole? (cs : List Char) : Option (List Char × List Char) :=
  match digits? cs with
  | some ('0' :: _ :: _, _) => none
  | found => found

/-- Splits off a fraction, if there is one; a point needs a digit after it. -/
def fraction? : List Char → Option (Option (List Char) × List Char)
  | '.' :: rest => (digits? rest).map fun (ds, rest) => (some ds, rest)
  | rest => some (none, rest)

/-- Splits off an exponent, if there is one; its mark needs a digit after it and its sign. -/
def exponent? : List Char → Option (Option (Bool × List Char) × List Char)
  | c :: rest =>
    if c = 'e' ∨ c = 'E' then
      let (negative, rest) := match rest with
        | '-' :: rest => (true, rest)
        | '+' :: rest => (false, rest)
        | rest => (false, rest)
      (digits? rest).map fun (ds, rest) => (some (negative, ds), rest)
    else some (none, c :: rest)
  | [] => some (none, [])

/-- Splits off a numeral. -/
def scan? (cs : List Char) : Option (Numeral × List Char) := do
  let (negative, cs) := match cs with
    | '-' :: rest => (true, rest)
    | cs => (false, cs)
  let (whole, cs) ← whole? cs
  let (fraction, cs) ← fraction? cs
  let (exponent, cs) ← exponent? cs
  return (⟨negative, whole, fraction, exponent⟩, cs)

/-- The largest significand. -/
def significandLimit : Nat := Nat.pow 2 64 - 1

/-- Appends digits to a significand as long as it fits, and returns those that no longer do. -/
def accumulate (significand : Nat) : List Char → Nat × List Char
  | [] => (significand, [])
  | c :: rest =>
    let next := 10 * significand + (c.toNat - '0'.toNat)
    if next ≤ significandLimit then accumulate next rest else (significand, c :: rest)

/-- The binary64 number nearest to a power of ten. -/
def powerOfTen (k : Nat) : Float := (Decimal.mk 1 k).toFloat false

/-- The largest power of ten by which a number is divided at once. -/
def largestPower : Nat := 308

/-- Divides by the largest power a number of times, as long as the result is not zero, and then by
the power that is left. -/
def divideRepeatedly (left : Nat) : Nat → Float → Float
  | 0, x => x / powerOfTen left
  | steps + 1, x =>
    if isZero x then x else divideRepeatedly left steps (x / powerOfTen largestPower)

/-- Divides by `10 ^ k`, for positive `k`. -/
def scaleDown (x : Float) (k : Nat) : Float :=
  let steps := (k - 1) / largestPower
  divideRepeatedly (k - steps * largestPower) steps x

/-- Multiplies by a power of ten; a result beyond the finite range is refused. -/
def scaleUp? (x : Float) (k : Nat) : Option Float :=
  if k ≤ largestPower then
    let y := x * powerOfTen k
    if (datum y).isFinite then some y else none
  else if isZero x then some x
  else none

/-- A significand times a power of ten, rounded at each step. -/
def scale? (significand : Nat) : Int → Option Float
  | .ofNat k => scaleUp? (ofNat significand) k
  | .negSucc k => some (scaleDown (ofNat significand) (k + 1))

/-- The largest exponent that is read as a number. -/
def exponentLimit : Nat := Nat.pow 2 31 - 1

/-- The value without the sign, of a numeral that is no plain integer. An exponent beyond the limit
gives zero if it is negative or the significand is zero, and is refused otherwise. -/
def magnitude? (n : Numeral) : Option Float :=
  let (significand, dropped) := accumulate 0 n.whole
  let fraction := n.fraction.getD []
  let (significand, ignored) := accumulate significand fraction
  let start : Int := dropped.length - (fraction.length - ignored.length : Nat)
  match n.exponent with
  | none => scale? significand start
  | some (negative, ds) =>
    let e := Digits.value ds
    if exponentLimit < e then
      if significand ≠ 0 ∧ !negative then none else some (ofNat 0)
    else scale? significand (if negative then start - e else start + e)

/-- The value of a plain integer that fits into a significand. -/
def ofSignificand (negative : Bool) (n : Nat) : JsonNumber :=
  if !negative then .whole n
  else if n = 0 ∨ Nat.pow 2 63 < n then .real (-ofNat n)
  else .whole (-n)

/-- The value of a numeral, unless it is beyond the finite range. -/
def value? (n : Numeral) : Option JsonNumber :=
  let real := (magnitude? n).map fun x => JsonNumber.real (if n.negative then -x else x)
  match n.fraction, n.exponent, accumulate 0 n.whole with
  | none, none, (significand, []) => some (ofSignificand n.negative significand)
  | _, _, _ => real

end Numeral

/-- The binary64 number nearest to a JSON number. -/
def JsonNumber.toFloat : JsonNumber → Float
  | .whole n => Binary64.ofInt n
  | .real x => x

end ResumableFormulas
