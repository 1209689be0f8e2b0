import ResumableFormulas.Number.Shortest

/-! # Layouts of number texts

A layout says how the shortest digits of a number are laid out as text: positionally or with an
exponent, with or without a fraction on whole numbers, and which words stand for what is not finite.
The library writes numbers in three layouts, given here as data.
-/
namespace ResumableFormulas

/-- The decisions of one number format. -/
structure Layout where
  /-- Which of two equally near shortest decimals is written. -/
  tie : Decimal.Tie
  /-- Whether a number whose first digit has this exponent is written without an exponent. -/
  positional : Int → Bool
  /-- What follows the digits of a whole number in positional form. -/
  wholeEnding : String
  /-- What stands before an exponent that is not negative. -/
  exponentMark : String
  notANumber : String
  infinity : String

namespace Layout
open Binary64

/-- Never an exponent, and no fraction on whole numbers. -/
def plain : Layout where
  tie := .upper
  positional := fun _ => true
  wholeEnding := ""
  exponentMark := "e"
  notANumber := "NaN"
  infinity := "Infinity"

/-- Positional from 10⁻⁴ up to 10¹⁶, and a fraction on every whole number written so. -/
def inspected : Layout where
  tie := .upper
  positional := fun e => -4 ≤ e ∧ e < 16
  wholeEnding := ".0"
  exponentMark := "e"
  notANumber := "NaN"
  infinity := "inf"

/-- Positional from 10⁻⁵ up to 10¹⁶, with the sign of every exponent; what is not finite is null. -/
def json : Layout where
  tie := .even
  positional := fun e => -5 ≤ e ∧ e < 16
  wholeEnding := ".0"
  exponentMark := "e+"
  notANumber := "null"
  infinity := "null"

/-- Digits with the point after the digit of exponent zero, filled up with zeros. -/
def positionalText (wholeEnding : List Char) (digits : List Char) (exponent : Int) : List Char :=
  match exponent with
  | .negSucc k => '0' :: '.' :: (List.replicate k '0' ++ digits)
  | .ofNat k =>
    if digits.length ≤ k + 1 then
      digits ++ List.replicate (k + 1 - digits.length) '0' ++ wholeEnding
    else digits.take (k + 1) ++ '.' :: digits.drop (k + 1)

/-- The first digit, the others after a point, and the exponent. -/
def exponentText (mark : List Char) (digits : List Char) (exponent : Int) : List Char :=
  let fraction := match digits.drop 1 with
    | [] => []
    | rest => '.' :: rest
  let power := match exponent with
    | .ofNat k => mark ++ Nat.toDigits 10 k
    | .negSucc k => 'e' :: '-' :: Nat.toDigits 10 (k + 1)
  digits.take 1 ++ fraction ++ power

/-- The text of a decimal. -/
def decimalText (l : Layout) (d : Decimal) : List Char :=
  let digits := Nat.toDigits 10 d.significand
  let exponent := d.exponent + digits.length - 1
  if l.positional exponent then positionalText l.wholeEnding.toList digits exponent
  else exponentText l.exponentMark.toList digits exponent

/-- The text of a number that is not negative, by its code. -/
def magnitudeText (l : Layout) (c : Nat) : List Char :=
  if c = 0 then l.decimalText ⟨0, 0⟩ else l.decimalText (Decimal.shortest l.tie c)

/-- The text of a number; a negative zero keeps its sign. -/
def characters (l : Layout) (x : Float) : List Char :=
  match datum x with
  | .notANumber => l.notANumber.toList
  | .infinite negative => (if negative then ['-'] else []) ++ l.infinity.toList
  | .finite negative c => (if negative then ['-'] else []) ++ l.magnitudeText c

/-- Writes a number. -/
def write (l : Layout) (x : Float) : String := String.ofList (l.characters x)

end Layout

end ResumableFormulas
