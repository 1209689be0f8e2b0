import ResumableFormulas.Proofs.Number.Error
import ResumableFormulas.Proofs.Number.Fewest
import ResumableFormulas.Proofs.Value.Display

/-! # Whole numbers are written like all others

Below 10¹⁵ neighbouring numbers are at most an eighth apart, so what rounds to a whole number is
within a sixteenth of it. A decimal with a fraction is then no shortest one: either the power of ten
between it and the number rounds to the number too, with a single digit, or it is below nine tenths.
So the shortest decimal is the number itself, and its digits with the zeros after them are the
digits of the number.
-/
namespace ResumableFormulas

namespace Binary64
open Float.Model (UnpackedFloat)
open Float.Model.UnpackedFloat (ExtendedMantissa)

/-! ## The cast to an integer -/

section Cast

variable {s : Bool} {c m : ℕ} {f : UnpackedFloat}

theorem Unpacked.toInt_of_whole (h : Unpacked s c f) (hc : c < infinityCode)
    (hm : units c = m * unitsPerOne) (low high : ℤ) :
    f.toInt low high = if s then -(m : ℤ) else m := by
  cases h with
  | infinite => exact absurd hc (lt_irrefl _)
  | zero =>
    rw [units_zero] at hm
    obtain rfl : m = 0 := (Nat.mul_eq_zero.mp hm.symm).resolve_right unitsPerOne_pos.ne'
    cases s <;> rfl
  | @finite _ e n exponent hn hhigh hlow hexponent hcode =>
    have hunits : (n : ℚ) * 2 ^ e = m * 2 ^ 1074 := by
      rw [← units_of_finite hhigh hlow hcode, hm, Nat.cast_mul, cast_unitsPerOne]
    generalize hw : 1074 = w at hunits
    -- The significand is shifted left by `a` and right by `k`, and one of the two is zero.
    obtain ⟨a, ha⟩ : ∃ a, (exponent - 0).toNat = a := ⟨_, rfl⟩
    obtain ⟨k, hk⟩ : ∃ k, (0 - (exponent - a)).toNat = k := ⟨_, rfl⟩
    have hshifts : e + k = w + a := by omega
    have hvalue : ((n <<< a : ℕ) : ℚ) / 2 ^ k = m := by
      have hscaled : (n : ℚ) * 2 ^ a * 2 ^ w = m * 2 ^ k * 2 ^ w := by
        calc (n : ℚ) * 2 ^ a * 2 ^ w = n * 2 ^ (w + a) := by ring
          _ = n * 2 ^ e * 2 ^ k := by rw [← hshifts, pow_add, mul_assoc]
          _ = m * 2 ^ k * 2 ^ w := by rw [hunits]; ring
      rw [Nat.shiftLeft_eq, Nat.cast_mul, Nat.cast_pow, div_eq_iff (by positivity)]
      exact mul_right_cancel₀ (by positivity) hscaled
    have hcut := (cutTo_exact (n <<< a)).shiftRight k
    rw [hvalue] at hcut
    have hmantissa :
        (ExtendedMantissa.ofMantissaAndAccuracy (n <<< a) .exact >>> k).mantissa = m := by
      apply le_antisymm
      · exact_mod_cast hcut.le
      · exact Nat.lt_succ_iff.mp (by exact_mod_cast hcut.lt)
    simp only [UnpackedFloat.toInt, UnpackedFloat.roundToInt, UnpackedFloat.decreaseExponent,
      UnpackedFloat.shiftToExponent, ha, hk, hmantissa]
    cases s <;> rfl

end Cast

/-- A small integer is cast to 64 bits without a change. -/
theorem toInt_toInt64 {x : Float} {n : ℤ} (hfinite : code x < infinityCode)
    (h : toInt? x = some n) (hlimit : n.natAbs < 10 ^ 15) : x.toModel.toInt64.toInt = n := by
  have hm := Scalar.exists_whole_of_toInt? hfinite h
  have hint := Scalar.toInt?_of_whole hfinite hm
  have hcast := (unpacked_toModel x hfinite.le).toInt_of_whole hfinite hm
    Int64.minValue.toInt Int64.maxValue.toInt
  rw [h, Option.some.injEq] at hint
  rw [← hint] at hcast
  have hlow : Int64.minValue.toInt = -2 ^ 63 := rfl
  have hhigh : Int64.maxValue.toInt = 2 ^ 63 - 1 := rfl
  rw [Float.Model.toInt64, UnpackedFloat.toInt64, hcast]
  apply Int64.toInt_ofIntClamp
  · rw [hlow]
    omega
  · rw [hhigh]
    omega

section Whole

variable {q : ℚ} {c m : ℕ} (hm : units c = m * unitsPerOne)

include hm

/-- What rounds to a small integer is at most a sixteenth away from it. -/
theorem Nearest.error_of_whole (h : Nearest (q * unitsPerOne) c) (hlimit : m < 2 ^ 50) :
    16 * q ≤ 16 * m + 1 ∧ 16 * (m : ℚ) ≤ 16 * q + 1 := by
  have hone := cast_unitsPerOne_pos
  obtain ⟨e, he⟩ : ∃ e, e + 3 = 1074 := ⟨1071, rfl⟩
  have heighth : (unitsPerOne : ℚ) = 8 * 2 ^ e := by
    rw [cast_unitsPerOne, ← he, pow_add]
    ring
  have hunits : (units c : ℚ) = m * unitsPerOne := by exact_mod_cast hm
  have hq : q * unitsPerOne ≤ 2 ^ (53 + e) := by
    have htop : (units (e * 2 ^ 52 + 2 ^ 53) : ℚ) = 2 ^ (53 + e) := by
      rw [units_add (by decide) (.inr (by decide)), pow_add]
      norm_num
    by_contra hlarge
    rw [← htop, not_le] at hlarge
    have hle := cast_units_le ((nearest_units _).le h hlarge.le)
    have hless : (m : ℚ) * unitsPerOne < 2 ^ 50 * unitsPerOne :=
      mul_lt_mul_of_pos_right (by exact_mod_cast hlimit) hone
    rw [htop, hunits, pow_add] at hle
    linarith
  obtain ⟨hhigh, hlow⟩ := h.error hq
  rw [hunits] at hhigh hlow
  constructor
  · refine le_of_mul_le_mul_right ?_ hone
    linarith
  · refine le_of_mul_le_mul_right ?_ hone
    linarith

end Whole

end Binary64

namespace Decimal
open Binary64

section Whole

variable {c m : ℕ} {d : Decimal} (h : IsShortest c d) (hm : Binary64.units c = m * unitsPerOne)
  (hpos : 0 < m)

include h hm hpos

/-- Between a decimal with a fraction and an integer which needs as many digits lies a power of ten.
-/
theorem IsShortest.digitCount_eq_one (hfraction : d.exponent < 0) : d.digitCount = 1 := by
  have hself : units ⟨m, 0⟩ = Binary64.units c := by
    rw [units, zpow_zero, mul_one, hm, Nat.cast_mul]
  have hwhole : Nearest (units ⟨m, 0⟩) c := by
    rw [hself]
    exact nearest_units c
  have hfew : d.digitCount ≤ digitCount ⟨m, 0⟩ := h.fewest _ hwhole
  have hcount := d.digitCount_pos
  obtain ⟨j, hj⟩ : ∃ j, d.digitCount = j + 1 := ⟨d.digitCount - 1, by omega⟩
  have hpower : units ⟨1, j⟩ = gridStep j := by rw [units_mk, Nat.cast_one, one_mul]
  have hbelow : d.units ≤ units ⟨1, j⟩ := by
    have hdigits := d.significand_lt
    rw [hj] at hdigits
    calc d.units = d.significand * gridStep d.exponent := units_mk d.significand d.exponent
      _ ≤ 10 ^ (j + 1) * gridStep d.exponent := by
          apply mul_le_mul_of_nonneg_right _ (gridStep_pos _).le
          exact_mod_cast hdigits.le
      _ = gridStep (d.exponent + (j + 1 : ℕ)) := (gridStep_add _ _).symm
      _ ≤ gridStep j := gridStep_mono (by omega)
      _ = units ⟨1, j⟩ := hpower.symm
  have habove : units ⟨1, j⟩ ≤ units ⟨m, 0⟩ := by
    have hle : 10 ^ j ≤ m := by
      apply le_trans _ (pow_le_significand (d := ⟨m, 0⟩) hpos)
      exact Nat.pow_le_pow_right (by decide) (by omega)
    calc units ⟨1, j⟩ = gridStep (0 + j) := by rw [hpower, zero_add]
      _ = 10 ^ j * gridStep 0 := gridStep_add 0 j
      _ ≤ m * gridStep 0 := by
          apply mul_le_mul_of_nonneg_right _ (gridStep_pos 0).le
          exact_mod_cast hle
      _ = units ⟨m, 0⟩ := (units_mk m 0).symm
  have hone : d.digitCount ≤ digitCount ⟨1, j⟩ :=
    h.fewest _ (h.nearest.of_between hwhole hbelow habove)
  exact le_antisymm (hone.trans ((digitCount_le_iff Nat.one_pos).mpr (by simp))) hcount

/-- The shortest decimal of a small integer has no fraction and is equal to it. -/
theorem IsShortest.eq_whole (hlimit : m < 10 ^ 15) :
    ∃ k : ℕ, d.exponent = k ∧ d.significand * 10 ^ k = m := by
  obtain ⟨habove, hbelow⟩ := h.nearest.error_of_whole hm (by omega)
  by_cases hfraction : d.exponent < 0
  · exfalso
    have hdigit : d.significand ≤ 9 := by
      have := d.significand_lt
      rw [h.digitCount_eq_one hm hpos hfraction] at this
      omega
    have hvalue : (d.significand : ℚ) * 10 ^ d.exponent ≤ 9 * 10 ^ (-1 : ℤ) := by
      apply mul_le_mul
      · exact_mod_cast hdigit
      · exact zpow_le_zpow_right₀ (by norm_num) (by omega)
      · positivity
      · norm_num
    have hm : (1 : ℚ) ≤ m := by exact_mod_cast hpos
    norm_num at hvalue
    linarith
  · obtain ⟨k, hk⟩ : ∃ k : ℕ, d.exponent = k := ⟨d.exponent.toNat, by omega⟩
    refine ⟨k, hk, ?_⟩
    rw [hk, zpow_natCast] at habove hbelow
    have hle : 16 * (d.significand * 10 ^ k) ≤ 16 * m + 1 := by exact_mod_cast habove
    have hge : 16 * m ≤ 16 * (d.significand * 10 ^ k) + 1 := by exact_mod_cast hbelow
    omega

end Whole

end Decimal

namespace Layout

theorem toDigits_mul_pow {s : ℕ} (hs : 0 < s) (k : ℕ) :
    Nat.toDigits 10 (s * 10 ^ k) = Nat.toDigits 10 s ++ List.replicate k '0' := by
  induction k with
  | zero => simp
  | succ k ih =>
    have hpos : 0 < s * 10 ^ k := Nat.mul_pos hs (Nat.pow_pos (by decide))
    have hstep := Nat.toDigits_append_toDigits (b := 10) (d := 0) (by decide) hpos (by decide)
    have hnext : s * 10 ^ (k + 1) = 10 * (s * 10 ^ k) + 0 := by ring
    rw [hnext, ← hstep, ih, Nat.toDigits_zero, List.replicate_succ', List.append_assoc]

/-- A decimal without a fraction is laid out as the digits of the number it is equal to. -/
theorem decimalText_whole {d : Decimal} {k : ℕ} (hk : d.exponent = k) (hpos : 0 < d.significand) :
    plain.decimalText d = Nat.toDigits 10 (d.significand * 10 ^ k) := by
  rw [toDigits_mul_pow hpos]
  have hlength := Nat.length_toDigits_pos (b := 10) (n := d.significand)
  simp only [decimalText, plain, if_true, hk]
  generalize Nat.toDigits 10 d.significand = digits at hlength
  obtain ⟨l, hl⟩ := Nat.exists_eq_add_of_lt hlength
  have hexponent : (k : ℤ) + digits.length - 1 = .ofNat (k + l) := by
    rw [Int.ofNat_eq_natCast]
    omega
  have hzeros : k + l + 1 - digits.length = k := by omega
  rw [hexponent, positionalText, if_pos (by omega), hzeros, String.toList_empty, List.append_nil]

end Layout

namespace Scalar
open Binary64

theorem numberText_of_toInt? {x : Float} {n : ℤ} (h : toInt? x = some n)
    (hlimit : n.natAbs < wholeLimit) : numberText x = toString n := by
  rw [numberText, h]
  simp only [if_pos hlimit]
  cases n with
  | ofNat m =>
    have hsign : ¬Int.ofNat m < 0 := (Int.natCast_nonneg m).not_gt
    rw [if_neg hsign, List.nil_append, Int.natAbs_ofNat', ← Nat.repr_eq_ofList_toDigits]
    rfl
  | negSucc m =>
    rw [if_pos (Int.negSucc_lt_zero m), String.ofList_append, ← Nat.repr_eq_ofList_toDigits]
    rfl

/-- A number other than zero has the text of its shortest decimal, also if it is a small integer. -/
theorem numberText_eq_write {x : Float} (hfinite : code x < infinityCode) (hpos : 0 < code x) :
    numberText x = Layout.plain.write x := by
  by_cases hwhole : ∃ m < wholeLimit, units (code x) = m * unitsPerOne
  · obtain ⟨m, hlimit, hm⟩ := hwhole
    have hmpos := whole_pos hm hpos
    have hshortest := Decimal.isShortest_shortest Layout.plain.tie hpos
    obtain ⟨k, hk, hvalue⟩ := hshortest.eq_whole hm hmpos hlimit
    have hsignificand := Decimal.shortest_significand_pos Layout.plain.tie hpos
    rw [numberText_of_whole hfinite hm hlimit, write_shortest hfinite hpos,
      Layout.decimalText_whole hk hsignificand, hvalue]
    simp [NumberLiteral.pointed, hmpos]
  · exact numberText_of_not_whole hfinite fun m hm heq => hwhole ⟨m, hm, heq⟩

/-- That small integers are written by their digits shows only on a negative zero: all other finite
numbers are written by a shortest decimal anyway. -/
theorem display_uniform {x : Float} (hfinite : (datum x).isFinite) :
    (x ≠ ofCode true 0 → (Scalar.number x).toText = Layout.plain.write x) ∧
      (x = ofCode true 0 → (Scalar.number x).toText = "0") ∧
      (∀ n, toInt? x = some n → n.natAbs < wholeLimit →
        x.toModel.toInt64.toInt = n ∧ (Scalar.number x).toText = toString n) ∧
      (code x ≠ 0 → ∃ d, Decimal.IsShortest (code x) d ∧
        Layout.plain.write x = String.ofList
          ((if isNegative x then ['-'] else []) ++ Layout.plain.decimalText d)) := by
  have hcode := (isFinite_datum x).mp hfinite
  refine ⟨?_, ?_, ?_, ?_⟩
  · intro hx
    rcases Nat.eq_zero_or_pos (code x) with hzero | hpos
    · have hsame := ofCode_code hcode.le
      rw [hzero] at hsame
      cases hsign : isNegative x with
      | true =>
        rw [hsign] at hsame
        exact absurd hsame.symm hx
      | false =>
        have hwrite : Layout.plain.write (ofCode false 0) = "0" := by decide +kernel
        rw [hsign] at hsame
        rw [hsame] at hwrite
        rw [hwrite]
        exact numberText_of_zero hzero
    · exact numberText_eq_write hcode hpos
  · intro hx
    have hzero : code x = 0 := by
      rw [hx]
      exact code_ofCode true (by decide)
    exact numberText_of_zero hzero
  · intro n hn hlimit
    exact ⟨toInt_toInt64 hcode hn hlimit, numberText_of_toInt? hn hlimit⟩
  · intro hx
    have hpos := Nat.pos_of_ne_zero hx
    exact ⟨_, Decimal.isShortest_shortest Layout.plain.tie hpos, write_shortest hcode hpos⟩

/-- The shortest decimal of 120 has two digits and is padded with a zero. -/
theorem display_uniform_of_trailing_zero :
    let x := ofCode false 0x405e000000000000
    (datum x).isFinite ∧ x ≠ ofCode true 0 ∧ toInt? x = some 120 ∧
      (Scalar.number x).toText = Layout.plain.write x ∧ x.toModel.toInt64.toInt = 120 ∧
      (Scalar.number x).toText = "120" ∧ ∃ d, Decimal.IsShortest (code x) d ∧
        Layout.plain.write x = String.ofList
          ((if isNegative x then ['-'] else []) ++ Layout.plain.decimalText d) := by
  intro x
  have hfinite : (datum x).isFinite := by decide +kernel
  have hsign : x ≠ ofCode true 0 := by decide +kernel
  have hwhole : toInt? x = some 120 := by decide +kernel
  have hpos : code x ≠ 0 := by decide +kernel
  obtain ⟨hsame, -, hcast, hshortest⟩ := display_uniform hfinite
  obtain ⟨hinteger, htext⟩ := hcast 120 hwhole (by decide)
  exact ⟨hfinite, hsign, hwhole, hsame hsign, hinteger, htext, hshortest hpos⟩

end Scalar

end ResumableFormulas
