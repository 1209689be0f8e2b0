import ResumableFormulas.Number.Binary64

/-! # Decimal numbers

A decimal is a natural number times a power of ten. `Decimal.toFloat` rounds it correctly to
binary64. Exponents that settle the answer by their size are recognised before any power is formed.
-/
namespace ResumableFormulas

/-- The number `significand * 10 ^ exponent`. -/
structure Decimal where
  significand : Nat
  exponent : Int
deriving DecidableEq, Repr

namespace Decimal
open Binary64

/-- The code of the binary64 number nearest to a decimal: 10³¹⁰ is beyond the finite range, and a
decimal is below half a unit as soon as its significand has less than `3 * k - 1075` bits, where
`-k` is its exponent. -/
def nearestCode (d : Decimal) : Nat :=
  if d.significand = 0 then 0
  else
    match d.exponent with
    | .ofNat k =>
      if 309 < k then infinityCode
      else Binary64.nearestCode (d.significand * Nat.pow 10 k * unitsPerOne) 1
    | .negSucc k =>
      if d.significand.log2 + 1076 ≤ 3 * (k + 1) then 0
      else Binary64.nearestCode (d.significand * unitsPerOne) (Nat.pow 10 (k + 1))

/-- The binary64 number nearest to a decimal with a sign. -/
def toFloat (negative : Bool) (d : Decimal) : Float := ofCode negative d.nearestCode

end Decimal

end ResumableFormulas
