import ResumableFormulas.Number.Decimal
import ResumableFormulas.Number.Digits

/-! # Number literals in text

The texts that stand for numbers: an optional sign, then digits with an optional point and at least
one digit, then an optional exponent; or one of the words for infinity and for what is no number, in
any letter case. Digits are ASCII. The value of a numeral is correctly rounded, its exponent taking
no more digits once it has reached 65536.
-/
namespace ResumableFormulas

/-- The digits of a numeral, the point left out, and the exponent of its last digit. -/
def Decimal.ofDigits (whole fraction : List Char) (exponent : Int) : Decimal :=
  ⟨Digits.value (whole ++ fraction), exponent - fraction.length⟩

namespace NumberLiteral
open Binary64

/-- Splits off a sign. -/
def sign : List Char → Bool × List Char
  | '-' :: rest => (true, rest)
  | '+' :: rest => (false, rest)
  | rest => (false, rest)

/-- Splits off the leading digits. -/
def digits (cs : List Char) : List Char × List Char :=
  (cs.takeWhile Char.isDigit, cs.dropWhile Char.isDigit)

/-- The digits after a point, if there is one. -/
def fraction : List Char → List Char × List Char
  | '.' :: rest => digits rest
  | rest => ([], rest)

/-- An exponent of this size takes no more digits. -/
def exponentCap : Nat := 65536

/-- Appends a digit to an exponent, unless that has reached the cap. Only a numeral with tens of
thousands of digits can tell: with such an exponent any other is zero or beyond the finite range. -/
def extendExponent (exponent : Nat) (digit : Char) : Nat :=
  if exponent < exponentCap then 10 * exponent + (digit.toNat - '0'.toNat) else exponent

/-- The exponent that has to make up the rest of the text. -/
def exponent? : List Char → Option Int
  | [] => some 0
  | c :: rest =>
    if c = 'e' ∨ c = 'E' then
      let (negative, rest) := sign rest
      if rest ≠ [] ∧ rest.all Char.isDigit then
        let n : Int := (rest.foldl extendExponent 0 : Nat)
        some (if negative then -n else n)
      else none
    else none

/-- An unsigned numeral. -/
def decimal? (cs : List Char) : Option Decimal :=
  let (whole, rest) := digits cs
  let (fraction, rest) := fraction rest
  if whole = [] ∧ fraction = [] then none
  else (exponent? rest).map fun e => Decimal.ofDigits whole fraction e

/-- The words among the literals, given in lower case. -/
def word? (negative : Bool) (cs : List Char) : Option Float :=
  let lower := cs.map Char.toLower
  if lower = "inf".toList ∨ lower = "infinity".toList then some (ofCode negative infinityCode)
  else if lower = "nan".toList then some notANumber
  else none

/-- The number a text stands for, if it is a literal. -/
def read? (cs : List Char) : Option Float :=
  let (negative, rest) := sign cs
  match decimal? rest with
  | some d => some (d.toFloat negative)
  | none => word? negative rest

end NumberLiteral

end ResumableFormulas
