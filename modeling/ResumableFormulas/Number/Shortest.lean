import ResumableFormulas.Number.Decimal

/-! # The shortest decimal that reads back

Of all decimals that round to a given positive binary64 number, `shortest` takes one with the fewest
digits and, of those, the nearest. The search goes over decimal grids from coarse to fine; on each
grid only the two neighbours of the number have to be tried, because the decimals that round to a
number form an interval around it.
-/
namespace ResumableFormulas.Decimal
open Binary64

/-- Which of two equally near decimals is taken. -/
inductive Tie where
  | upper
  | even
deriving DecidableEq, Repr

/-- The power `10 ^ k` as a numerator and a denominator. -/
def powerOfTen : Int → Nat × Nat
  | .ofNat k => (Nat.pow 10 k, 1)
  | .negSucc k => (1, Nat.pow 10 (k + 1))

/-- Whether `d * 10 ^ k` rounds to the number with code `c`: it lies between the half-way points to
the neighbours, which belong to the interval iff the code is even. -/
def roundsTo (c d : Nat) (k : Int) : Bool :=
  let (num, den) := powerOfTen k
  let low := (units (c - 1) + units c) * den
  let high := (units c + units (c + 1)) * den
  let point := 2 * d * num * unitsPerOne
  if c % 2 = 0 then low ≤ point ∧ point ≤ high else low < point ∧ point < high

/-- The exponent of the first digit of the number with code `c`. Multiplying by 10³²⁴ lifts even the
smallest number above one without changing its digits. -/
def leadingExponent (c : Nat) : Int :=
  ((Nat.toDigits 10 (units c * Nat.pow 10 324 / unitsPerOne)).length : Int) - 325

/-- The multiple of `10 ^ k` just below the number with code `c`, or at it. -/
def gridFloor (c : Nat) (k : Int) : Nat :=
  let (num, den) := powerOfTen k
  units c * den / (num * unitsPerOne)

/-- Whether the number with code `c` is nearer to `d + 1` than to `d` on the grid of `10 ^ k`, or is
half-way and the tie goes up. -/
def prefersUpper (tie : Tie) (c d : Nat) (k : Int) : Bool :=
  let (num, den) := powerOfTen k
  let middle := (2 * d + 1) * num * unitsPerOne
  let twice := 2 * units c * den
  middle < twice ∨ (middle = twice ∧ (tie = .upper ∨ d % 2 = 1))

/-- The better neighbour on the grid of `10 ^ k`, if one of the two rounds to the number. -/
def onGrid (tie : Tie) (c : Nat) (k : Int) : Option Decimal :=
  let d := gridFloor c k
  match roundsTo c d k, roundsTo c (d + 1) k with
  | false, false => none
  | true, false => some ⟨d, k⟩
  | false, true => some ⟨d + 1, k⟩
  | true, true => some ⟨if prefersUpper tie c d k then d + 1 else d, k⟩

/-- Moves up to a number of trailing zeros of the significand into the exponent. -/
def stripZeros : Nat → Decimal → Decimal
  | 0, d => d
  | n + 1, d =>
    if d.significand ≠ 0 ∧ d.significand % 10 = 0 then
      stripZeros n ⟨d.significand / 10, d.exponent + 1⟩
    else d

/-- The most digits that a shortest decimal can need. -/
def maxDigits : Nat := 17

/-- The shortest decimal that rounds to the positive number with code `c`. The finest grid always
has one, so the default does not arise. -/
def shortest (tie : Tie) (c : Nat) : Decimal :=
  let e := leadingExponent c
  let found := (List.range maxDigits).findSome? fun (n : Nat) => onGrid tie c (e - n)
  stripZeros maxDigits (found.getD ⟨0, 0⟩)

end ResumableFormulas.Decimal
