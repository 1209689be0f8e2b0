/-! # Binary64 numbers as codes

A non-negative binary64 number is given by its bit pattern read as a natural number, its code, and
codes are ordered as the numbers are. `units` is the value of a code in multiples of 2⁻¹⁰⁷⁴, the
smallest positive number. The code of infinity stands for 2¹⁰²⁴, where the finite numbers would go
on, so the half-way points between neighbours need no special case at the top.
-/
namespace ResumableFormulas.Binary64

/-- The code of infinity, above all codes of finite numbers. -/
def infinityCode : Nat := 2047 * Nat.pow 2 52

/-- How many units make one. -/
def unitsPerOne : Nat := Nat.pow 2 1074

/-- The bit pattern without its sign bit. -/
def code (x : Float) : Nat := x.toBits.toNat % Nat.pow 2 63

/-- Whether the sign bit is set. -/
def isNegative (x : Float) : Bool := Nat.pow 2 63 ≤ x.toBits.toNat

/-- The number with the given sign and code. -/
def ofCode (negative : Bool) (c : Nat) : Float :=
  Float.ofBits (UInt64.ofNat (if negative then Nat.pow 2 63 + c else c))

/-- The one value that is no number. -/
def notANumber : Float := ofCode false (infinityCode + Nat.pow 2 51)

/-- The value of a code in units: below 2⁵² the code itself, above it a significand with its
leading bit restored, shifted by the exponent field less one. -/
def units (c : Nat) : Nat :=
  if c < Nat.pow 2 52 then c
  else (Nat.pow 2 52 + c % Nat.pow 2 52) * Nat.pow 2 (c / Nat.pow 2 52 - 1)

/-- What a bit pattern stands for. -/
inductive Datum where
  | notANumber
  | infinite (negative : Bool)
  | finite (negative : Bool) (code : Nat)
deriving DecidableEq, Repr

/-- Takes a number apart. -/
def datum (x : Float) : Datum :=
  if infinityCode < code x then .notANumber
  else if code x = infinityCode then .infinite (isNegative x)
  else .finite (isNegative x) (code x)

def Datum.isFinite : Datum → Bool
  | .finite _ _ => true
  | _ => false

/-- Zero of either sign. -/
def isZero (x : Float) : Bool := code x = 0

/-- The place of a number among all numbers. The two zeros share the place in the middle. -/
def rank (x : Float) : Int := if isNegative x then -(code x : Int) else code x

/-- The order of two numbers; what is no number has none. -/
def order? (x y : Float) : Option Ordering :=
  if datum x = .notANumber ∨ datum y = .notANumber then none else some (compare (rank x) (rank y))

/-- The quotient rounded to the nearest natural number, a tie going to the even one. -/
def roundDiv (num den : Nat) : Nat :=
  let q := num / den
  let r := num % den
  if 2 * r < den ∨ (2 * r = den ∧ q % 2 = 0) then q else q + 1

/-- The code nearest to `num / den` units. The quotient is cut to 53 bits by a shift `e`; a
significand that rounds up to 2⁵³ carries into the exponent field by itself, and everything from
the middle between the largest finite number and 2¹⁰²⁴ on is infinite. -/
def nearestCode (num den : Nat) : Nat :=
  let e := (num / den).log2 - 52
  min (e * Nat.pow 2 52 + roundDiv num (den * Nat.pow 2 e)) infinityCode

/-- The number nearest to a natural number. -/
def ofNat (n : Nat) : Float := ofCode false (nearestCode (n * unitsPerOne) 1)

/-- The number nearest to an integer. -/
def ofInt (i : Int) : Float := ofCode (i < 0) (nearestCode (i.natAbs * unitsPerOne) 1)

/-- The integer a finite number is equal to, if there is one. -/
def toInt? (x : Float) : Option Int :=
  match datum x with
  | .finite negative c =>
    if units c % unitsPerOne = 0 then
      let n : Int := (units c / unitsPerOne : Nat)
      some (if negative then -n else n)
    else none
  | _ => none

end ResumableFormulas.Binary64
