import ResumableFormulas.Number.Layout
import ResumableFormulas.Number.Literal
import ResumableFormulas.Text.Blank

/-! # Scalars

Numbers, texts and truth values, and the three ways to take one for another. Every scalar has a
text, a number and a truth value; a text that is no number literal counts as not a number.
-/
namespace ResumableFormulas

/-- A value without parts. -/
inductive Scalar where
  | number (x : Float)
  | text (s : String)
  | truth (b : Bool)
deriving DecidableEq

namespace Scalar
open Binary64

/-- Numbers from this magnitude on are written by their shortest digits even if they are integers.
-/
def wholeLimit : Nat := Nat.pow 10 15

/-- The text of a number: its exact digits for a small integer, so that a negative zero loses its
sign, and the shortest digits that read back for all others. -/
def numberText (x : Float) : String :=
  match toInt? x with
  | some n =>
    if n.natAbs < wholeLimit then
      String.ofList ((if n < 0 then ['-'] else []) ++ Nat.toDigits 10 n.natAbs)
    else Layout.plain.write x
  | none => Layout.plain.write x

/-- A scalar as text. -/
def toText : Scalar → String
  | .number x => numberText x
  | .text s => s
  | .truth true => "true"
  | .truth false => "false"

/-- The number a text stands for: blanks at its ends do not matter, and an empty text is zero. -/
def textNumber (s : String) : Float :=
  match Text.trim s.toList with
  | [] => ofNat 0
  | cs => (NumberLiteral.read? cs).getD notANumber

/-- A scalar as a number. -/
def toNumber : Scalar → Float
  | .number x => x
  | .text s => textNumber s
  | .truth true => ofNat 1
  | .truth false => ofNat 0

/-- A scalar as a truth value: texts that are not empty, and numbers except zero and what is no
number. -/
def toTruth : Scalar → Bool
  | .number x => !isZero x && datum x ≠ .notANumber
  | .text s => !s.isEmpty
  | .truth b => b

/-- Equality of scalars of one kind; numbers are compared as numbers, so what is no number equals
nothing and the two zeros are equal. -/
def equal : Scalar → Scalar → Bool
  | .number x, .number y => order? x y = some .eq
  | .text s, .text t => s = t
  | .truth a, .truth b => a = b
  | _, _ => false

/-- The order of two scalars: two texts by their characters, all others as numbers. -/
def order : Scalar → Scalar → Option Ordering
  | .text s, .text t => some (compare s t)
  | a, b => order? a.toNumber b.toNumber

end Scalar

end ResumableFormulas
