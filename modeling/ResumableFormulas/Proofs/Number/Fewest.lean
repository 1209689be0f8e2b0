import ResumableFormulas.Proofs.Number.Shortest

/-! # No shorter decimal rounds back

The decimals that round to a number form an interval around it. If one with some number of digits
does, then so does a neighbour of the number on the grid of as many digits, or else the power of ten
below the number. The search has tried both by then, so what it finds has as few digits as any
decimal in the interval, and of those with as few it is the nearest.
-/
namespace ResumableFormulas

namespace Binary64

/-- What lies between two numbers with one nearest code has it too. -/
theorem Nearest.of_between {q r q' : ℚ} {c : ℕ} (h : Nearest q c) (h' : Nearest q' c) (hle : q ≤ r)
    (hle' : r ≤ q') : Nearest r c := by
  rw [Decimal.nearest_iff] at *
  split at h
  case isTrue heven =>
    rw [if_pos heven] at *
    exact ⟨by linarith, by linarith⟩
  case isFalse hodd =>
    rw [if_neg hodd] at *
    exact ⟨by linarith, by linarith⟩

end Binary64

namespace Decimal
open Binary64

def digitCount (d : Decimal) : ℕ := (Nat.toDigits 10 d.significand).length

theorem digitCount_pos (d : Decimal) : 0 < d.digitCount := Nat.length_toDigits_pos

theorem digitCount_le_iff {d : Decimal} {j : ℕ} (hj : 0 < j) :
    d.digitCount ≤ j ↔ d.significand < 10 ^ j :=
  Nat.length_toDigits_le_iff (by decide) hj

theorem significand_lt (d : Decimal) : d.significand < 10 ^ d.digitCount :=
  (digitCount_le_iff d.digitCount_pos).mp le_rfl

theorem pow_le_significand {d : Decimal} (hpos : 0 < d.significand) :
    10 ^ (d.digitCount - 1) ≤ d.significand :=
  pow_length_toDigits_le hpos

section Grid

variable {c s : ℕ} {k : ℤ} (tie : Tie)

theorem gridStep_mono {k k' : ℤ} (h : k ≤ k') : gridStep k ≤ gridStep k' :=
  mul_le_mul_of_nonneg_right (zpow_le_zpow_right₀ (by norm_num) h) cast_unitsPerOne_pos.le

theorem units_le_units {s s' : ℕ} (h : s ≤ s') (k : ℤ) : units ⟨s, k⟩ ≤ units ⟨s', k⟩ := by
  rw [units_mk, units_mk]
  apply mul_le_mul_of_nonneg_right _ (gridStep_pos k).le
  exact_mod_cast h

/-- A decimal on a grid that rounds to the number has a neighbour of the number between the two, or
is one. -/
theorem neighbour_of_nearest (h : Nearest (units ⟨s, k⟩) c) :
    s ≤ gridFloor c k ∧ roundsTo c (gridFloor c k) k = true ∨
      gridFloor c k + 1 ≤ s ∧ roundsTo c (gridFloor c k + 1) k = true := by
  obtain ⟨hfloor, hnext⟩ := gridFloor_bounds c k
  rw [roundsTo_iff, roundsTo_iff]
  rcases Nat.lt_or_ge (gridFloor c k) s with hlt | hge
  · right
    refine ⟨hlt, (nearest_units c).of_between h ?_ (units_le_units hlt k)⟩
    rw [units_mk, Nat.cast_add, Nat.cast_one]
    exact hnext.le
  · left
    refine ⟨hge, h.of_between (nearest_units c) (units_le_units hge k) ?_⟩
    rw [units_mk]
    exact hfloor

theorem onGrid_isSome_of_nearest (h : Nearest (units ⟨s, k⟩) c) : (onGrid tie c k).isSome := by
  rcases neighbour_of_nearest h with ⟨-, hrounds⟩ | ⟨-, hrounds⟩
  · cases hnext : roundsTo c (gridFloor c k + 1) k <;> simp [onGrid, hrounds, hnext]
  · cases hfloor : roundsTo c (gridFloor c k) k <;> simp [onGrid, hrounds, hfloor]

theorem prefersUpper_bounds (c d : ℕ) (k : ℤ) :
    (prefersUpper tie c d k = true →
      units ⟨d, k⟩ + units ⟨d + 1, k⟩ ≤ 2 * (Binary64.units c : ℚ)) ∧
    (prefersUpper tie c d k = false →
      2 * (Binary64.units c : ℚ) ≤ units ⟨d, k⟩ + units ⟨d + 1, k⟩) := by
  obtain ⟨hpower, -, hden⟩ := powerOfTen_eq k
  have hmiddle : units ⟨d, k⟩ + units ⟨d + 1, k⟩ = (2 * d + 1) * gridStep k := by
    rw [units_mk, units_mk]
    push_cast
    ring
  rw [hmiddle, gridStep, ← hpower]
  unfold prefersUpper
  dsimp only
  rw [decide_eq_true_eq, decide_eq_false_iff_not]
  -- The number of units in one is far too large for arithmetic on it, and becomes a variable.
  generalize (powerOfTen k).1 = num
  generalize (powerOfTen k).2 = den at hden
  generalize unitsPerOne = one
  have hdenq : (0 : ℚ) < den := by exact_mod_cast hden
  have hscale : (2 * (d : ℚ) + 1) * (num / den * one) = ((2 * d + 1) * num * one : ℕ) / den := by
    push_cast
    ring
  rw [hscale, div_le_iff₀ hdenq, le_div_iff₀ hdenq]
  constructor
  · intro hupper
    have hle : (2 * d + 1) * num * one ≤ 2 * Binary64.units c * den := by omega
    exact_mod_cast hle
  · intro hlower
    have hle : 2 * Binary64.units c * den ≤ (2 * d + 1) * num * one := by omega
    exact_mod_cast hle

/-- What is found on a grid is as near as each neighbour that rounds to the number. -/
theorem distance_onGrid {d : Decimal} (hd : onGrid tie c k = some d) :
    (roundsTo c (gridFloor c k) k = true →
      |d.units - Binary64.units c| ≤ Binary64.units c - units ⟨gridFloor c k, k⟩) ∧
    (roundsTo c (gridFloor c k + 1) k = true →
      |d.units - Binary64.units c| ≤ units ⟨gridFloor c k + 1, k⟩ - Binary64.units c) := by
  obtain ⟨hfloor, hnext⟩ := gridFloor_bounds c k
  rw [← units_mk] at hfloor
  rw [← Nat.cast_one, ← Nat.cast_add, ← units_mk] at hnext
  have hlower : |units ⟨gridFloor c k, k⟩ - Binary64.units c| =
      Binary64.units c - units ⟨gridFloor c k, k⟩ := by
    rw [abs_sub_comm, abs_of_nonneg (sub_nonneg.mpr hfloor)]
  have hupper : |units ⟨gridFloor c k + 1, k⟩ - Binary64.units c| =
      units ⟨gridFloor c k + 1, k⟩ - Binary64.units c :=
    abs_of_nonneg (sub_nonneg.mpr hnext.le)
  obtain ⟨hup, hdown⟩ := prefersUpper_bounds tie c (gridFloor c k) k
  simp only [onGrid] at hd
  split at hd
  case h_1 => contradiction
  case h_2 _ hmissed =>
    obtain rfl := Option.some.inj hd
    exact ⟨fun _ => hlower.le, fun h => absurd h (by rw [hmissed]; decide)⟩
  case h_3 hmissed _ =>
    obtain rfl := Option.some.inj hd
    exact ⟨fun h => absurd h (by rw [hmissed]; decide), fun _ => hupper.le⟩
  case h_4 =>
    obtain rfl := Option.some.inj hd
    cases hside : prefersUpper tie c (gridFloor c k) k with
    | true =>
      rw [if_pos rfl]
      exact ⟨fun _ => by linarith [hup hside], fun _ => hupper.le⟩
    | false =>
      rw [if_neg Bool.false_ne_true]
      exact ⟨fun _ => hlower.le, fun _ => by linarith [hdown hside]⟩

/-- Of the decimals on a grid that round to the number, the search picks the nearest. -/
theorem closest_onGrid {d : Decimal} (hd : onGrid tie c k = some d)
    (h : Nearest (units ⟨s, k⟩) c) :
    |d.units - Binary64.units c| ≤ |units ⟨s, k⟩ - Binary64.units c| := by
  obtain ⟨hlower, hupper⟩ := distance_onGrid tie hd
  rcases neighbour_of_nearest h with ⟨hs, hrounds⟩ | ⟨hs, hrounds⟩
  · refine (hlower hrounds).trans ?_
    rw [abs_sub_comm]
    apply le_trans _ (le_abs_self _)
    exact sub_le_sub_left (units_le_units hs k) _
  · refine (hupper hrounds).trans ?_
    apply le_trans _ (le_abs_self _)
    exact sub_le_sub_right (units_le_units hs k) _

end Grid

/-! ## All decimals -/

/-- A decimal that rounds to the number has one that is no farther on a grid which the search comes
to after no more digits: itself, or the power of ten below the number. -/
theorem exists_onGrid {c : ℕ} (hc : 0 < c) {d : Decimal} (h : Nearest d.units c) :
    ∃ i < d.digitCount, ∃ s, Nearest (units ⟨s, leadingExponent c - i⟩) c ∧
      |units ⟨s, leadingExponent c - i⟩ - Binary64.units c| ≤ |d.units - Binary64.units c| := by
  obtain ⟨-, hleading, -⟩ := leadingExponent_bounds hc
  obtain ⟨s, k⟩ := d
  have hdigits := significand_lt ⟨s, k⟩
  have hcount := digitCount_pos ⟨s, k⟩
  generalize digitCount ⟨s, k⟩ = j at hdigits hcount ⊢
  -- A decimal that is not below the power of ten has its first digit there or before, so its last
  -- one is on the grid of as many digits.
  by_cases hlow : units ⟨s, k⟩ < gridStep (leadingExponent c)
  · have hone : units ⟨1, leadingExponent c⟩ = gridStep (leadingExponent c) := by
      rw [units_mk, Nat.cast_one, one_mul]
    refine ⟨0, hcount, 1, ?_⟩
    rw [Nat.cast_zero, sub_zero, hone]
    refine ⟨h.of_between (nearest_units c) hlow.le hleading, ?_⟩
    rw [abs_of_nonpos (by linarith), abs_of_nonpos (by linarith)]
    linarith
  · have hk : leadingExponent c - (j - 1 : ℕ) ≤ k := by
      by_contra hfine
      apply hlow
      calc units ⟨s, k⟩ = s * gridStep k := units_mk s k
        _ < 10 ^ j * gridStep k := by
            apply mul_lt_mul_of_pos_right _ (gridStep_pos k)
            exact_mod_cast hdigits
        _ = gridStep (k + j) := (gridStep_add k j).symm
        _ ≤ gridStep (leadingExponent c) := gridStep_mono (by omega)
    obtain ⟨i, hi⟩ : ∃ i : ℕ, k = leadingExponent c - (j - 1 : ℕ) + i :=
      ⟨(k - (leadingExponent c - (j - 1 : ℕ))).toNat, by omega⟩
    have hsame : units ⟨s * 10 ^ i, leadingExponent c - (j - 1 : ℕ)⟩ = units ⟨s, k⟩ := by
      rw [hi, units_mk, units_mk, gridStep_add, Nat.cast_mul, Nat.cast_pow, mul_assoc]
      rfl
    refine ⟨j - 1, by omega, s * 10 ^ i, ?_⟩
    rw [hsame]
    exact ⟨h, le_rfl⟩

/-- A decimal rounds to a number, no decimal with fewer digits does, and none with as few is
nearer. -/
structure IsShortest (c : ℕ) (d : Decimal) : Prop where
  nearest : Nearest d.units c
  fewest : ∀ d' : Decimal, Nearest d'.units c → d.digitCount ≤ d'.digitCount
  closest : ∀ d' : Decimal, Nearest d'.units c → d'.digitCount ≤ d.digitCount →
    |d.units - Binary64.units c| ≤ |d'.units - Binary64.units c|

theorem isShortest_shortest (tie : Tie) {c : ℕ} (hc : 0 < c) : IsShortest c (shortest tie c) := by
  obtain ⟨n, -, hlt, hnone, d, hd, hunits⟩ := shortest_digits tie hc
  have hdigits : (shortest tie c).digitCount ≤ n + 1 := (digitCount_le_iff n.succ_pos).mpr hlt
  have hfirst : ∀ (i s : ℕ), Nearest (units ⟨s, leadingExponent c - i⟩) c → n ≤ i := by
    intro i s h
    by_contra hi
    have hsome := onGrid_isSome_of_nearest tie h
    rw [hnone i (by omega)] at hsome
    contradiction
  refine ⟨nearest_shortest tie hc, ?_, ?_⟩
  · intro d' h
    obtain ⟨i, hi, s, hs, -⟩ := exists_onGrid hc h
    have := hfirst i s hs
    omega
  · intro d' h hfew
    obtain ⟨i, hi, s, hs, hnearer⟩ := exists_onGrid hc h
    have := hfirst i s hs
    obtain rfl : i = n := by omega
    rw [hunits]
    exact (closest_onGrid tie hd hs).trans hnearer

end Decimal

end ResumableFormulas
