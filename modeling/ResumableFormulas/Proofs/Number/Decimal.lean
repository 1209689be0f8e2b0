import ResumableFormulas.Proofs.Number.Shortest

/-! # Decimals are rounded correctly

The code of a decimal is the one its value is rounded to. Where the exponent settles the answer by
its size, the value is beyond the finite range, or less than half a unit.
-/
namespace ResumableFormulas.Decimal
open Binary64

theorem roundsTo_infinityCode {num : ℕ} (h : Binary64.units infinityCode ≤ num) :
    RoundsTo num infinityCode := by
  obtain ⟨n, hn, -⟩ := roundsTo_nearestCode num Nat.one_pos
  rw [Nat.cast_one, div_one] at hn
  have hlarge := (nearest_units infinityCode).le hn (by exact_mod_cast h)
  exact ⟨n, hn, (min_eq_right hlarge).symm⟩

theorem roundsTo_zero {q : ℚ} (hq : 0 ≤ q) (h : 2 * q < 1) : RoundsTo q 0 := by
  refine Nearest.roundsTo ⟨?_, ?_, fun _ => rfl, fun _ => rfl⟩ (Nat.zero_le _)
  · simpa using hq
  · have hone : Binary64.units (0 + 1) = 1 := by decide
    rw [hone]
    simpa using h.le

theorem units_ofNat (s k : ℕ) :
    units ⟨s, .ofNat k⟩ = (s * Nat.pow 10 k * unitsPerOne : ℕ) := by
  have hone : ∀ one : ℕ, (s : ℚ) * 10 ^ (Int.ofNat k) * one = (s * 10 ^ k * one : ℕ) := by
    intro one
    rw [Int.ofNat_eq_natCast, zpow_natCast]
    push_cast
    rfl
  exact hone unitsPerOne

theorem units_negSucc (s k : ℕ) :
    units ⟨s, .negSucc k⟩ = (s * unitsPerOne : ℕ) / (Nat.pow 10 (k + 1) : ℕ) := by
  have hone : ∀ one : ℕ, (s : ℚ) * 10 ^ (Int.negSucc k) * one =
      (s * one : ℕ) / (10 ^ (k + 1) : ℕ) := by
    intro one
    rw [zpow_negSucc]
    push_cast
    ring
  exact hone unitsPerOne

/-- Any natural number times such a power of ten is beyond the finite range. -/
theorem units_infinityCode_le {s k : ℕ} (hs : 0 < s) (hk : 309 < k) :
    Binary64.units infinityCode ≤ s * Nat.pow 10 k * unitsPerOne := by
  obtain ⟨n, hn⟩ : ∃ n : ℕ, (k : ℤ) = 309 + n := ⟨k - 309, by omega⟩
  have hfactor : (1 : ℚ) ≤ s * 10 ^ n := by
    exact_mod_cast Nat.mul_pos hs (Nat.pow_pos (by decide))
  have hlarge : (Binary64.units infinityCode : ℚ) ≤ units ⟨s, .ofNat k⟩ :=
    calc (Binary64.units infinityCode : ℚ) ≤ 1 * gridStep 309 := by
          rw [one_mul]
          exact units_infinityCode_lt.le
      _ ≤ s * 10 ^ n * gridStep 309 := mul_le_mul_of_nonneg_right hfactor (gridStep_pos 309).le
      _ = units ⟨s, .ofNat k⟩ := by rw [Int.ofNat_eq_natCast, units_mk, hn, gridStep_add, mul_assoc]
  rw [units_ofNat] at hlarge
  exact_mod_cast hlarge

/-- A significand of so few bits is less than half a unit. -/
theorem units_negSucc_lt {s k : ℕ} (h : s.log2 + 1076 ≤ 3 * (k + 1)) :
    2 * units ⟨s, .negSucc k⟩ < 1 := by
  have hbits : s < 2 ^ (s.log2 + 1) := Nat.lt_log2_self
  have hpowers : (2 : ℚ) ^ (s.log2 + 1076) ≤ 10 ^ (k + 1) :=
    calc (2 : ℚ) ^ (s.log2 + 1076) ≤ 2 ^ (3 * (k + 1)) := pow_le_pow_right₀ (by norm_num) h
      _ = 8 ^ (k + 1) := by rw [pow_mul]; norm_num
      _ ≤ 10 ^ (k + 1) := by gcongr; norm_num
  have hsmall : 2 * ((s : ℚ) * unitsPerOne) < 2 ^ (s.log2 + 1076) :=
    calc 2 * ((s : ℚ) * unitsPerOne) < 2 * (2 ^ (s.log2 + 1) * unitsPerOne) := by
          refine mul_lt_mul_of_pos_left (mul_lt_mul_of_pos_right ?_ cast_unitsPerOne_pos) two_pos
          exact_mod_cast hbits
      _ = 2 ^ (s.log2 + 1076) := by
          have hexponent : s.log2 + 1 + 1074 + 1 = s.log2 + 1076 := by omega
          rw [cast_unitsPerOne, ← pow_add, ← pow_succ', hexponent]
  rw [units_negSucc, Nat.cast_mul, Nat.pow_eq, mul_div_assoc', div_lt_one (by positivity)]
  push_cast
  exact hsmall.trans_le hpowers

/-- The code of a decimal is that to which its value is rounded. -/
theorem roundsTo_units (d : Decimal) : RoundsTo d.units d.nearestCode := by
  obtain ⟨s, e⟩ := d
  rw [nearestCode]
  split
  case isTrue hzero =>
    obtain rfl : s = 0 := hzero
    have hunits : units ⟨0, e⟩ = 0 := by rw [units, Nat.cast_zero, zero_mul, zero_mul]
    rw [hunits]
    exact nearest_zero.roundsTo (Nat.zero_le _)
  case isFalse hpos =>
    cases e with
    | ofNat k =>
      rw [units_ofNat]
      simp only
      split
      case isTrue hlarge =>
        exact roundsTo_infinityCode (units_infinityCode_le (Nat.pos_of_ne_zero hpos) hlarge)
      case isFalse =>
        have hrounds := roundsTo_nearestCode (s * Nat.pow 10 k * unitsPerOne) Nat.one_pos
        rwa [Nat.cast_one, div_one] at hrounds
    | negSucc k =>
      simp only
      split
      case isTrue hsmall =>
        refine roundsTo_zero ?_ (units_negSucc_lt hsmall)
        rw [units_negSucc]
        exact div_nonneg (Nat.cast_nonneg _) (Nat.cast_nonneg _)
      case isFalse =>
        rw [units_negSucc]
        exact roundsTo_nearestCode _ (Nat.pow_pos (by decide))

/-- A decimal is rounded to the number nearest to it. -/
theorem toFloat_of_nearest {d : Decimal} {c : ℕ} (h : Nearest d.units c) (hc : c ≤ infinityCode)
    (negative : Bool) : d.toFloat negative = ofCode negative c := by
  rw [toFloat, (roundsTo_units d).eq (h.roundsTo hc)]

end ResumableFormulas.Decimal
