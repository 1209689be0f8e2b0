import ResumableFormulas.Proofs.Number.Literal
import ResumableFormulas.Proofs.Operator.Comparison
import ResumableFormulas.Value.Scalar

/-! # Numbers through their texts

Every text of a number is read as that number: the words, the exact digits of small integers, and
the shortest decimals of all others. Only a negative zero comes back without its sign, so two
numbers have one text iff they are equal or both no numbers.
-/
namespace ResumableFormulas.Scalar
open Binary64
open NumberLiteral (IsPointed pointed)

/-- Equal as numbers, or both of them none. -/
def SameNumber (x y : Float) : Prop :=
  order? x y = some .eq ∨ datum x = .notANumber ∧ datum y = .notANumber

namespace SameNumber

variable {x y z : Float}

theorem refl (x : Float) : SameNumber x x := by
  by_cases h : datum x = .notANumber
  · exact .inr ⟨h, h⟩
  · exact .inl (order?_self h)

theorem symm (h : SameNumber x y) : SameNumber y x := by
  rcases h with h | h
  · refine .inl ?_
    rw [order?_swap, h]
    rfl
  · exact .inr h.symm

theorem trans (h : SameNumber x y) (h' : SameNumber y z) : SameNumber x z := by
  simp only [SameNumber, order?_eq_some_iff] at *
  rcases h with ⟨hx, hy, hxy⟩ | ⟨hx, hy⟩
  · rcases h' with ⟨-, hz, hyz⟩ | ⟨hy', -⟩
    · exact .inl ⟨hx, hz, Std.TransCmp.eq_trans hxy hyz⟩
    · exact absurd hy' hy
  · rcases h' with ⟨hy', -, -⟩ | ⟨-, hz⟩
    · exact absurd hy hy'
    · exact .inr ⟨hx, hz⟩

/-- The two zeros are equal, and no other numbers that are not the same. -/
theorem eq_or_zero (h : order? x y = some .eq) : x = y ∨ code x = 0 ∧ code y = 0 := by
  obtain ⟨-, -, hrank⟩ := order?_eq_some_iff.mp h
  have hrank : rank x = rank y := Std.LawfulEqCmp.eq_of_compare hrank
  simp only [rank] at hrank
  by_cases hsign : isNegative x = isNegative y
  · refine .inl (float_ext hsign ?_)
    rw [hsign] at hrank
    split at hrank <;> omega
  · refine .inr ?_
    split at hrank <;> split at hrank <;> simp_all

end SameNumber

/-! ## Reading -/

theorem textNumber_ofList {cs : List Char} (hblank : ∀ c ∈ cs, Text.isBlank c = false)
    (hne : cs ≠ []) : textNumber (String.ofList cs) = (NumberLiteral.read? cs).getD notANumber := by
  obtain ⟨c, rest, rfl⟩ := List.exists_cons_of_ne_nil hne
  rw [textNumber, String.toList_ofList, Text.trim_eq_self hblank]

theorem textNumber_pointed {whole fraction : List Char} (h : IsPointed whole fraction)
    (negative : Bool) :
    textNumber (String.ofList ((if negative then ['-'] else []) ++ pointed whole fraction)) =
      (Decimal.ofDigits whole fraction 0).toFloat negative := by
  rw [textNumber_ofList, h.read?_eq, Option.getD_some]
  · intro c hc
    rcases List.mem_append.mp hc with hsign | hdigits
    · cases negative
      · contradiction
      · obtain rfl := List.mem_singleton.mp hsign
        decide
    · exact h.not_isBlank c hdigits
  · simp [pointed, h.ne_nil]

/-! ## The texts -/

theorem whole_pos {c m : ℕ} (hm : units c = m * unitsPerOne) (hpos : 0 < c) : 0 < m := by
  rw [Nat.pos_iff_ne_zero]
  rintro rfl
  rw [Nat.zero_mul, ← units_zero] at hm
  exact hpos.ne' (units_strictMono.injective hm)

section Finite

variable {x : Float} (hfinite : code x < infinityCode)
include hfinite

theorem toInt?_of_whole {m : ℕ} (hm : units (code x) = m * unitsPerOne) :
    toInt? x = some (if isNegative x then -(m : ℤ) else m) := by
  rw [toInt?, datum_of_finite hfinite]
  simp only [hm, Nat.mul_mod_left, if_true, Nat.mul_div_cancel _ unitsPerOne_pos]

theorem exists_whole_of_toInt? {n : ℤ} (h : toInt? x = some n) :
    units (code x) = n.natAbs * unitsPerOne := by
  rw [toInt?, datum_of_finite hfinite] at h
  simp only [Option.ite_none_right_eq_some, Option.some.injEq] at h
  obtain ⟨hmod, rfl⟩ := h
  have hdiv := Nat.div_mul_cancel (Nat.dvd_of_mod_eq_zero hmod)
  split <;> simp only [Int.natAbs_neg, Int.natAbs_natCast, hdiv]

/-- A small integer is written by its digits. -/
theorem numberText_of_whole {m : ℕ} (hm : units (code x) = m * unitsPerOne)
    (hlimit : m < wholeLimit) : numberText x =
      String.ofList ((if isNegative x && 0 < m then ['-'] else []) ++
        pointed (Nat.toDigits 10 m) []) := by
  rw [numberText, toInt?_of_whole hfinite hm]
  cases isNegative x with
  | false => simp [hlimit, pointed]
  | true => simp [hlimit, pointed]

/-- Any other number is written by its shortest decimal. -/
theorem numberText_of_not_whole (h : ∀ m < wholeLimit, units (code x) ≠ m * unitsPerOne) :
    numberText x = Layout.plain.write x := by
  rw [numberText]
  split
  case h_1 n hn =>
    rw [if_neg fun hlimit => h _ hlimit (exists_whole_of_toInt? hfinite hn)]
  case h_2 => rfl

theorem write_shortest (hpos : 0 < code x) : Layout.plain.write x =
    String.ofList ((if isNegative x then ['-'] else []) ++
      Layout.plain.decimalText (Decimal.shortest Layout.plain.tie (code x))) := by
  rw [Layout.write, Layout.characters, datum_of_finite hfinite]
  simp only [Layout.magnitudeText, if_neg hpos.ne']

theorem write_plain (hpos : 0 < code x) :
    let d := Decimal.shortest Layout.plain.tie (code x)
    let digits := Nat.toDigits 10 d.significand
    let exponent := d.exponent + digits.length - 1
    Layout.plain.write x = String.ofList ((if isNegative x then ['-'] else []) ++
      pointed (Layout.wholeDigits digits exponent) (Layout.fractionDigits digits exponent)) := by
  intro d digits exponent
  rw [← Layout.decimalText_plain d, write_shortest hfinite hpos]

end Finite

/-! ## Reading the texts -/

theorem units_toDigits (m : ℕ) :
    (Decimal.ofDigits (Nat.toDigits 10 m) [] 0).units = (m * unitsPerOne : ℕ) := by
  rw [Decimal.ofDigits, Digits.value_eq_ofDigitChars, List.append_nil,
    Nat.ofDigitChars_ten_toDigits, List.length_nil, Nat.cast_zero, sub_zero, Decimal.units,
    zpow_zero, mul_one, Nat.cast_mul]

section Finite

variable {x : Float} (hfinite : code x < infinityCode)
include hfinite

theorem textNumber_of_whole {m : ℕ} (hm : units (code x) = m * unitsPerOne)
    (hlimit : m < wholeLimit) :
    textNumber (numberText x) = if code x = 0 then ofCode false 0 else x := by
  have hnearest : Nearest (Decimal.ofDigits (Nat.toDigits 10 m) [] 0).units (code x) := by
    rw [units_toDigits, ← hm]
    exact nearest_units _
  rw [numberText_of_whole hfinite hm hlimit,
    textNumber_pointed (NumberLiteral.isPointed_toDigits m),
    Decimal.toFloat_of_nearest hnearest hfinite.le]
  by_cases hzero : code x = 0
  · have hmzero : m = 0 := by
      rw [hzero, units_zero] at hm
      exact (Nat.mul_eq_zero.mp hm.symm).resolve_right unitsPerOne_pos.ne'
    rw [if_pos hzero, hzero, hmzero]
    simp
  · have hmpos := whole_pos hm (Nat.pos_of_ne_zero hzero)
    rw [if_neg hzero]
    simpa [hmpos] using ofCode_code hfinite.le

theorem textNumber_of_not_whole (h : ∀ m < wholeLimit, units (code x) ≠ m * unitsPerOne) :
    textNumber (numberText x) = x ∧ code x ≠ 0 := by
  have hpos : 0 < code x := by
    rw [Nat.pos_iff_ne_zero]
    intro hzero
    refine h 0 (by decide) ?_
    rw [hzero, units_zero, zero_mul]
  have hnearest := Decimal.nearest_shortest Layout.plain.tie hpos
  rw [← Layout.units_ofDigits] at hnearest
  rw [numberText_of_not_whole hfinite h, write_plain hfinite hpos,
    textNumber_pointed (Layout.isPointed_digits _ Nat.toDigits_ne_nil
      (NumberLiteral.isDigit_toDigits _)),
    Decimal.toFloat_of_nearest hnearest hfinite.le, ofCode_code hfinite.le]
  exact ⟨rfl, hpos.ne'⟩

/-- A finite number comes back from its text, but for the sign of zero. -/
theorem textNumber_of_finite :
    textNumber (numberText x) = if code x = 0 then ofCode false 0 else x := by
  by_cases hwhole : ∃ m < wholeLimit, units (code x) = m * unitsPerOne
  · obtain ⟨m, hlimit, hm⟩ := hwhole
    exact textNumber_of_whole hfinite hm hlimit
  · obtain ⟨hback, hne⟩ := textNumber_of_not_whole hfinite fun m hm heq => hwhole ⟨m, hm, heq⟩
    rw [hback, if_neg hne]

end Finite

theorem textNumber_of_infinite {x : Float} (h : code x = infinityCode) :
    textNumber (numberText x) = x := by
  have hx := ofCode_code h.le
  rw [h] at hx
  have hword : ∀ negative, textNumber (numberText (ofCode negative infinityCode)) =
      ofCode negative infinityCode := by decide +kernel
  have hback := hword (isNegative x)
  rwa [hx] at hback

theorem numberText_of_notANumber {x : Float} (h : datum x = .notANumber) :
    numberText x = "NaN" := by
  rw [numberText, toInt?, h]
  simp only
  rw [Layout.write, Layout.characters, h]
  rfl

theorem numberText_of_zero {x : Float} (h : code x = 0) : numberText x = "0" := by
  have hfinite : code x < infinityCode := by
    rw [h]
    decide
  have hwhole : units (code x) = 0 * unitsPerOne := by rw [h, units_zero, Nat.zero_mul]
  rw [numberText_of_whole hfinite hwhole (by decide)]
  simp [pointed]

/-! ## All numbers -/

/-- Where the text of a number leads back to. -/
theorem textNumber_numberText (x : Float) :
    SameNumber (textNumber (numberText x)) x ∧
      (textNumber (numberText x) = x ∨ isZero x ∨ datum x = .notANumber) := by
  rcases lt_trichotomy (code x) infinityCode with hfinite | hinfinite | hnan
  · rw [textNumber_of_finite hfinite]
    split
    case isTrue hzero =>
      refine ⟨.inl (order?_eq_some_iff.mpr ⟨by decide, ?_, ?_⟩), .inr (.inl ?_)⟩
      · rw [datum_of_finite hfinite]
        nofun
      · have hrank : rank x = 0 := by simp [rank, hzero]
        rw [hrank]
        decide
      · simp [isZero, hzero]
    case isFalse => exact ⟨.refl x, .inl rfl⟩
  · rw [textNumber_of_infinite hinfinite]
    exact ⟨.refl x, .inl rfl⟩
  · have hdatum := datum_eq_notANumber_iff.mpr hnan
    rw [numberText_of_notANumber hdatum]
    exact ⟨.inr ⟨by decide +kernel, hdatum⟩, .inr (.inr hdatum)⟩

theorem numberText_congr {x y : Float} (h : SameNumber x y) : numberText x = numberText y := by
  rcases h with h | ⟨hx, hy⟩
  · rcases SameNumber.eq_or_zero h with rfl | ⟨hx, hy⟩
    · rfl
    · rw [numberText_of_zero hx, numberText_of_zero hy]
  · rw [numberText_of_notANumber hx, numberText_of_notANumber hy]

/-- The text of a number is read as an equal number, or as no number if it was none; only the sign
of a zero can get lost. So two numbers have the same text iff they are the same. -/
theorem display_lossless (x y : Float) :
    SameNumber (Scalar.text (Scalar.number x).toText).toNumber x ∧
      ((Scalar.text (Scalar.number x).toText).toNumber = x ∨ isZero x ∨ datum x = .notANumber) ∧
      ((Scalar.number x).toText = (Scalar.number y).toText ↔ SameNumber x y) := by
  obtain ⟨hback, hlost⟩ := textNumber_numberText x
  refine ⟨hback, hlost, fun h => ?_, numberText_congr⟩
  have hback' := (textNumber_numberText y).1
  have htext : numberText x = numberText y := h
  rw [← htext] at hback'
  exact hback.symm.trans hback'

/-- A negative zero comes back as a positive one. -/
example : (Scalar.text (Scalar.number (Float.ofBits 0x8000000000000000)).toText).toNumber =
    Float.ofBits 0 := by decide +kernel

end ResumableFormulas.Scalar
