import Mathlib.Data.List.Basic
import ResumableFormulas.Number.Layout
import ResumableFormulas.Number.Literal
import ResumableFormulas.Proofs.Number.Decimal
import ResumableFormulas.Text.Blank

/-! # Number literals without an exponent

Digits with an optional point are read as the decimal that they write, correctly rounded. The texts
of the positional layout are such literals, and their digits amount to the decimal that is laid out,
though zeros may be added to it on either side.
-/
namespace ResumableFormulas

namespace NumberLiteral

theorem digits_append {ds rest : List Char} (hds : ∀ c ∈ ds, c.isDigit)
    (hrest : ∀ c ∈ rest.head?, c.isDigit = false) : digits (ds ++ rest) = (ds, rest) := by
  rw [digits, List.takeWhile_append_of_pos hds, List.dropWhile_append_of_pos hds]
  cases rest with
  | nil => simp
  | cons c cs => simp [hrest c rfl]

theorem sign_cons {c : Char} (h : c.isDigit) (cs : List Char) :
    sign (c :: cs) = (false, c :: cs) := by
  have hminus : c ≠ '-' := by rintro rfl; contradiction
  have hplus : c ≠ '+' := by rintro rfl; contradiction
  simp [sign, hminus, hplus]

/-- Digits with a point after the whole ones, if there are others. -/
def pointed (whole fraction : List Char) : List Char :=
  whole ++ if fraction = [] then [] else '.' :: fraction

/-- Digits of a literal, of which there is one before the point. -/
structure IsPointed (whole fraction : List Char) : Prop where
  isDigit_whole : ∀ c ∈ whole, c.isDigit
  isDigit_fraction : ∀ c ∈ fraction, c.isDigit
  ne_nil : whole ≠ []

theorem isDigit_of_mem_zeros {k : ℕ} {c : Char} (hc : c ∈ List.replicate k '0') :
    c.isDigit = true := by
  rw [List.eq_of_mem_replicate hc]
  rfl

theorem isDigit_toDigits (n : ℕ) : ∀ c ∈ Nat.toDigits 10 n, c.isDigit := fun _ hc =>
  Nat.isDigit_of_mem_toDigits (by decide) (by decide) hc

theorem isPointed_toDigits (n : ℕ) : IsPointed (Nat.toDigits 10 n) [] :=
  ⟨isDigit_toDigits n, by simp, Nat.toDigits_ne_nil⟩

namespace IsPointed

variable {whole fraction : List Char} (h : IsPointed whole fraction)
include h

theorem decimal?_eq : decimal? (pointed whole fraction) = some (.ofDigits whole fraction 0) := by
  by_cases hnil : fraction = []
  · subst hnil
    have hwhole : digits (whole ++ []) = (whole, []) := digits_append h.isDigit_whole (by simp)
    rw [List.append_nil] at hwhole
    simp [pointed, decimal?, hwhole, NumberLiteral.fraction, exponent?, h.ne_nil]
  · have hwhole : digits (whole ++ '.' :: fraction) = (whole, '.' :: fraction) :=
      digits_append h.isDigit_whole (by simp)
    have hfraction : digits (fraction ++ []) = (fraction, []) :=
      digits_append h.isDigit_fraction (by simp)
    rw [List.append_nil] at hfraction
    simp [pointed, hnil, decimal?, hwhole, NumberLiteral.fraction, hfraction, exponent?, h.ne_nil]

theorem sign_eq : sign (pointed whole fraction) = (false, pointed whole fraction) := by
  obtain ⟨d, ds, rfl⟩ := List.exists_cons_of_ne_nil h.ne_nil
  have hdigit := h.isDigit_whole d List.mem_cons_self
  rw [pointed, List.cons_append]
  exact sign_cons hdigit _

theorem read?_eq (negative : Bool) :
    read? ((if negative then ['-'] else []) ++ pointed whole fraction) =
      some ((Decimal.ofDigits whole fraction 0).toFloat negative) := by
  cases negative with
  | true => simp [read?, sign, h.decimal?_eq]
  | false => simp [read?, h.sign_eq, h.decimal?_eq]

theorem not_isBlank : ∀ c ∈ pointed whole fraction, Text.isBlank c = false := by
  intro c hc
  rcases List.mem_append.mp hc with hwhole | hrest
  · exact Text.isBlank_of_isDigit (h.isDigit_whole c hwhole)
  · split at hrest
    · contradiction
    · rcases List.mem_cons.mp hrest with rfl | hfraction
      · decide
      · exact Text.isBlank_of_isDigit (h.isDigit_fraction c hfraction)

end IsPointed

end NumberLiteral

namespace Layout
open NumberLiteral (pointed IsPointed isDigit_of_mem_zeros)

/-- The digits before the point of a number whose first digit has the given exponent. -/
def wholeDigits (digits : List Char) : Int → List Char
  | .negSucc _ => ['0']
  | .ofNat k => digits.take (k + 1) ++ List.replicate (k + 1 - digits.length) '0'

/-- The digits after the point. -/
def fractionDigits (digits : List Char) : Int → List Char
  | .negSucc k => List.replicate k '0' ++ digits
  | .ofNat k => digits.drop (k + 1)

section

variable {digits : List Char} (exponent : Int)

theorem positionalText_eq (hne : digits ≠ []) : positionalText [] digits exponent =
    pointed (wholeDigits digits exponent) (fractionDigits digits exponent) := by
  cases exponent with
  | negSucc k => simp [positionalText, pointed, wholeDigits, fractionDigits, hne]
  | ofNat k =>
    simp only [positionalText, pointed, wholeDigits, fractionDigits, List.drop_eq_nil_iff]
    split
    case isTrue h => simp [List.take_of_length_le h]
    case isFalse h => simp [Nat.sub_eq_zero_of_le (Nat.le_of_not_le h)]

theorem isPointed_digits (hne : digits ≠ []) (hdigits : ∀ c ∈ digits, c.isDigit) :
    IsPointed (wholeDigits digits exponent) (fractionDigits digits exponent) := by
  cases exponent with
  | negSucc k =>
    refine ⟨by simp [wholeDigits], fun c hc => ?_, by simp [wholeDigits]⟩
    exact (List.mem_append.mp hc).elim isDigit_of_mem_zeros (hdigits c)
  | ofNat k =>
    refine ⟨fun c hc => ?_, fun c hc => hdigits c (List.mem_of_mem_drop hc), ?_⟩
    · exact (List.mem_append.mp hc).elim (fun h => hdigits c (List.mem_of_mem_take h))
        isDigit_of_mem_zeros
    · simp [wholeDigits, hne]

theorem decimalText_plain (d : Decimal) :
    let digits := Nat.toDigits 10 d.significand
    let exponent := d.exponent + digits.length - 1
    plain.decimalText d =
      pointed (wholeDigits digits exponent) (fractionDigits digits exponent) := by
  intro digits exponent
  rw [← positionalText_eq exponent Nat.toDigits_ne_nil]
  simp [decimalText, plain, digits, exponent]

end

/-- The digits laid out amount to the decimal. -/
theorem units_ofDigits (d : Decimal) :
    let digits := Nat.toDigits 10 d.significand
    let exponent := d.exponent + digits.length - 1
    (Decimal.ofDigits (wholeDigits digits exponent) (fractionDigits digits exponent) 0).units =
      d.units := by
  obtain ⟨s, e⟩ := d
  have hvalue := Nat.ofDigitChars_ten_toDigits (n := s)
  simp only
  generalize Nat.toDigits 10 s = digits at hvalue ⊢
  generalize hexponent : e + digits.length - 1 = exponent
  cases exponent with
  | negSucc k =>
    have hdecimal : Decimal.ofDigits (wholeDigits digits (.negSucc k))
        (fractionDigits digits (.negSucc k)) 0 = ⟨s, e⟩ := by
      simp only [Decimal.ofDigits, wholeDigits, fractionDigits, Digits.value_eq_ofDigitChars,
        Decimal.mk.injEq, List.length_append, List.length_replicate]
      refine ⟨?_, by omega⟩
      rw [Nat.ofDigitChars_append, Nat.ofDigitChars_append, Nat.ofDigitChars_replicate_zero]
      simpa [Nat.ofDigitChars_cons] using hvalue
    rw [hdecimal]
  | ofNat k =>
    replace hexponent : e + digits.length - 1 = (k : ℤ) := hexponent
    by_cases hshort : digits.length ≤ k + 1
    · have hdecimal : Decimal.ofDigits (wholeDigits digits (.ofNat k))
          (fractionDigits digits (.ofNat k)) 0 = ⟨10 ^ (k + 1 - digits.length) * s, 0⟩ := by
        simp only [Decimal.ofDigits, wholeDigits, fractionDigits, Digits.value_eq_ofDigitChars,
          List.take_of_length_le hshort, List.drop_of_length_le hshort, List.append_nil,
          Nat.ofDigitChars_append, Nat.ofDigitChars_replicate_zero, hvalue]
        rfl
      have hpower : e = (k + 1 - digits.length : ℕ) := by omega
      rw [hdecimal, hpower, Decimal.units, Decimal.units, zpow_natCast, zpow_zero]
      push_cast
      ring
    · have hdecimal : Decimal.ofDigits (wholeDigits digits (.ofNat k))
          (fractionDigits digits (.ofNat k)) 0 = ⟨s, e⟩ := by
        simp only [Decimal.ofDigits, wholeDigits, fractionDigits, Digits.value_eq_ofDigitChars,
          Nat.sub_eq_zero_of_le (Nat.le_of_not_le hshort), List.replicate_zero, List.append_nil,
          List.take_append_drop, hvalue, Decimal.mk.injEq, List.length_drop]
        exact ⟨trivial, by omega⟩
      rw [hdecimal]

end Layout

end ResumableFormulas
