import Mathlib.Algebra.Order.Field.Basic
import Mathlib.Data.Rat.Cast.Order
import Mathlib.Tactic.FieldSimp
import Mathlib.Tactic.Positivity
import ResumableFormulas.Proofs.Number.Units

/-! # Rounding to the nearest code

A number of units is nearest to a code if it lies between the half-way points to the two neighbours;
a half-way point belongs to the even one of its two codes. Each number has at most one nearest code,
and `nearestCode` finds it. Here codes go on above that of infinity as they do below it, and only
`RoundsTo` stops there.
-/
namespace ResumableFormulas.Binary64

section Quotient

variable (num : ℕ) {den : ℕ} (hden : 0 < den)

include hden

/-- A quotient is the natural one and a fraction. -/
theorem div_eq_div_add_fraction : (num : ℚ) / den = (num / den : ℕ) + (num % den : ℕ) / den := by
  have hdenq : (0 : ℚ) < den := by exact_mod_cast hden
  have hnum : (num : ℚ) = den * (num / den : ℕ) + (num % den : ℕ) := by
    exact_mod_cast (Nat.div_add_mod num den).symm
  rw [hnum]
  field_simp

theorem fraction_lt_one : ((num % den : ℕ) : ℚ) / den < 1 := by
  rw [div_lt_one (by exact_mod_cast hden)]
  exact_mod_cast Nat.mod_lt num hden

theorem div_lt_half_iff : (num : ℚ) / den < 1 / 2 ↔ 2 * num < den := by
  rw [div_lt_div_iff₀ (by exact_mod_cast hden) two_pos, one_mul, mul_comm]
  exact_mod_cast Iff.rfl

theorem div_eq_half_iff : (num : ℚ) / den = 1 / 2 ↔ 2 * num = den := by
  have hdenq : (den : ℚ) ≠ 0 := by exact_mod_cast hden.ne'
  rw [div_eq_div_iff hdenq two_ne_zero, one_mul, mul_comm]
  exact_mod_cast Iff.rfl

end Quotient

/-- A number rounded to a natural one, a tie going to the even one. -/
structure HalfEven (x : ℚ) (n : ℕ) : Prop where
  lower : 2 * (n : ℚ) ≤ 2 * x + 1
  upper : 2 * x ≤ 2 * n + 1
  even_of_lower : 2 * (n : ℚ) = 2 * x + 1 → n % 2 = 0
  even_of_upper : 2 * x = 2 * n + 1 → n % 2 = 0

theorem halfEven_roundDiv (num : ℕ) {den : ℕ} (hden : 0 < den) :
    HalfEven (num / den) (roundDiv num den) := by
  have hlt := fraction_lt_one num hden
  have hhalf := div_lt_half_iff (num % den) hden
  have htie := div_eq_half_iff (num % den) hden
  have hnonneg : (0 : ℚ) ≤ (num % den : ℕ) / den := by positivity
  rw [div_eq_div_add_fraction num hden, roundDiv]
  generalize ((num % den : ℕ) : ℚ) / den = f at hlt hhalf htie hnonneg
  generalize num / den = q
  rcases lt_trichotomy f (1 / 2) with h | h | h
  · rw [if_pos (.inl (hhalf.mp h))]
    exact ⟨by linarith, by linarith, fun heq => by linarith, fun heq => by linarith⟩
  · have hsum := htie.mp h
    by_cases heven : q % 2 = 0
    · rw [if_pos (.inr ⟨hsum, heven⟩)]
      exact ⟨by linarith, by linarith, fun _ => heven, fun _ => heven⟩
    · rw [if_neg (by omega)]
      have hsucc : (q + 1) % 2 = 0 := by omega
      refine ⟨?_, ?_, fun _ => hsucc, fun _ => hsucc⟩ <;> push_cast <;> linarith
  · have hover : ¬(2 * (num % den) < den ∨ 2 * (num % den) = den ∧ q % 2 = 0) := by
      rintro (hless | ⟨hsum, -⟩)
      · linarith [hhalf.mpr hless]
      · linarith [htie.mpr hsum]
    rw [if_neg hover]
    refine ⟨?_, ?_, fun heq => ?_, fun heq => ?_⟩ <;> push_cast at * <;> linarith

/-- The code nearest to a number of units. -/
structure Nearest (q : ℚ) (c : ℕ) : Prop where
  lower : (units (c - 1) + units c : ℚ) ≤ 2 * q
  upper : 2 * q ≤ units c + units (c + 1)
  even_of_lower : (units (c - 1) + units c : ℚ) = 2 * q → c % 2 = 0
  even_of_upper : 2 * q = units c + units (c + 1) → c % 2 = 0

theorem cast_units_succ (c : ℕ) : (units (c + 1) : ℚ) = units c + spacing c := by
  exact_mod_cast units_succ c

theorem cast_units_lt {c c' : ℕ} (h : c < c') : (units c : ℚ) < units c' := by
  exact_mod_cast units_strictMono h

theorem cast_units_le {c c' : ℕ} (h : c ≤ c') : (units c : ℚ) ≤ units c' := by
  exact_mod_cast units_strictMono.monotone h

theorem nearest_units (c : ℕ) : Nearest (units c) c := by
  have hlower := cast_units_le (Nat.sub_le c 1)
  have hupper := cast_units_lt (Nat.lt_succ_self c)
  refine ⟨by linarith, by linarith, fun heq => ?_, fun heq => by linarith⟩
  by_contra hodd
  have := cast_units_lt (show c - 1 < c by omega)
  linarith

section Binade

variable {x : ℚ} {e n : ℕ}

theorem HalfEven.le_of_le {m : ℕ} (hn : HalfEven x n) (hx : x ≤ m) : n ≤ m := by
  have : (n : ℚ) < m + 1 := by linarith [hn.lower]
  have : n < m + 1 := by exact_mod_cast this
  omega

theorem HalfEven.ge_of_ge {m : ℕ} (hn : HalfEven x n) (hx : m ≤ x) : m ≤ n := by
  have : (m : ℚ) < n + 1 := by linarith [hn.upper]
  have : m < n + 1 := by exact_mod_cast this
  omega

/-- The half-way point above, for a significand in range. The upper neighbour has the same distance,
unless the number is below its code anyway. -/
theorem HalfEven.halfway_above (hn : HalfEven x n) (hhigh : x < 2 ^ 53) (hnhigh : n ≤ 2 ^ 53)
    (hnlow : e = 0 ∨ 2 ^ 52 ≤ n) :
    2 * (x * 2 ^ e) ≤ units (e * 2 ^ 52 + n) + units (e * 2 ^ 52 + n + 1) ∧
      (2 * (x * 2 ^ e) = units (e * 2 ^ 52 + n) + units (e * 2 ^ 52 + n + 1) → n % 2 = 0) := by
  have hpow : (0 : ℚ) < 2 ^ e := by positivity
  have hunits : (units (e * 2 ^ 52 + n) : ℚ) = n * 2 ^ e := by
    exact_mod_cast units_add hnhigh hnlow
  by_cases htop : n = 2 ^ 53
  · have hnext := cast_units_lt (Nat.lt_succ_self (e * 2 ^ 52 + n))
    have hbelow : x * 2 ^ e < n * 2 ^ e := by
      refine mul_lt_mul_of_pos_right ?_ hpow
      rw [htop]
      exact_mod_cast hhigh
    exact ⟨by linarith, fun heq => by linarith⟩
  · have hnext : (units (e * 2 ^ 52 + n + 1) : ℚ) = (n + 1) * 2 ^ e := by
      have := units_add (e := e) (n := n + 1) (by omega) (by omega)
      rw [← Nat.add_assoc] at this
      exact_mod_cast this
    rw [hunits, hnext]
    refine ⟨by nlinarith [hn.upper], fun heq => hn.even_of_upper ?_⟩
    exact mul_right_cancel₀ hpow.ne' (by linarith)

/-- The half-way point below. The lower neighbour has the same distance, unless the significand is
the least of its binade, and then the number is not below its code. -/
theorem HalfEven.halfway_below (hn : HalfEven x n) (hpos : 0 ≤ x) (hlow : e = 0 ∨ 2 ^ 52 ≤ x)
    (hnhigh : n ≤ 2 ^ 53) (hnlow : e = 0 ∨ 2 ^ 52 ≤ n) :
    (units (e * 2 ^ 52 + n - 1) + units (e * 2 ^ 52 + n) : ℚ) ≤ 2 * (x * 2 ^ e) ∧
      ((units (e * 2 ^ 52 + n - 1) + units (e * 2 ^ 52 + n) : ℚ) = 2 * (x * 2 ^ e) →
        n % 2 = 0) := by
  have hpow : (0 : ℚ) < 2 ^ e := by positivity
  have hunits : (units (e * 2 ^ 52 + n) : ℚ) = n * 2 ^ e := by
    exact_mod_cast units_add hnhigh hnlow
  by_cases hzero : n = 0
  · obtain rfl : e = 0 := by omega
    subst hzero
    simpa using hpos
  by_cases hinner : e = 0 ∨ 2 ^ 52 < n
  · have hprev : (units (e * 2 ^ 52 + n - 1) : ℚ) = (n - 1) * 2 ^ e := by
      have := units_add (e := e) (n := n - 1) (by omega) (by omega)
      rw [show e * 2 ^ 52 + (n - 1) = e * 2 ^ 52 + n - 1 by omega] at this
      rw [this]
      push_cast [Nat.cast_sub (show 1 ≤ n by omega)]
      rfl
    rw [hunits, hprev]
    refine ⟨by nlinarith [hn.lower], fun heq => hn.even_of_lower ?_⟩
    exact mul_right_cancel₀ hpow.ne' (by linarith)
  · have hprev := cast_units_lt (show e * 2 ^ 52 + n - 1 < e * 2 ^ 52 + n by omega)
    have hbelow : n * 2 ^ e ≤ x * 2 ^ e := by
      refine mul_le_mul_of_nonneg_right ?_ hpow.le
      obtain rfl : n = 2 ^ 52 := by omega
      exact_mod_cast hlow.resolve_left (by omega)
    exact ⟨by linarith, fun heq => by linarith⟩

/-- Rounding in one binade, or among the numbers below 2⁵³ units. -/
theorem nearest_of_halfEven {q : ℚ} (hq : 0 ≤ q) (hn : HalfEven (q / 2 ^ e) n)
    (hlow : e = 0 ∨ (2 : ℚ) ^ (52 + e) ≤ q) (hhigh : q < 2 ^ (53 + e)) :
    Nearest q (e * 2 ^ 52 + n) := by
  have hpow : (0 : ℚ) < 2 ^ e := by positivity
  have hxhigh : q / 2 ^ e < 2 ^ 53 := by rwa [div_lt_iff₀ hpow, ← pow_add]
  have hxlow : e = 0 ∨ 2 ^ 52 ≤ q / 2 ^ e := by rwa [le_div_iff₀ hpow, ← pow_add]
  have hnhigh : n ≤ 2 ^ 53 := hn.le_of_le (by exact_mod_cast hxhigh.le)
  have hnlow : e = 0 ∨ 2 ^ 52 ≤ n := hxlow.imp_right fun h => hn.ge_of_ge (by exact_mod_cast h)
  have heven : n % 2 = 0 → (e * 2 ^ 52 + n) % 2 = 0 := by omega
  have habove := hn.halfway_above hxhigh hnhigh hnlow
  have hbelow := hn.halfway_below (by positivity) hxlow hnhigh hnlow
  rw [div_mul_cancel₀ q hpow.ne'] at habove hbelow
  exact ⟨hbelow.1, habove.1, fun h => heven (hbelow.2 h), fun h => heven (habove.2 h)⟩

end Binade

/-- Rounding keeps the order. -/
theorem Nearest.le {q q' : ℚ} {c c' : ℕ} (h : Nearest q c) (h' : Nearest q' c') (hq : q ≤ q') :
    c ≤ c' := by
  by_contra hlt
  have hc : c' ≤ c - 1 := by omega
  have hprev := cast_units_le hc
  have hnext := cast_units_le (show c' + 1 ≤ c by omega)
  have hupper := h'.upper
  have hlower := h.lower
  -- Both numbers are the same half-way point, and neither of two neighbours in a row is even.
  have heven := h.even_of_lower (by linarith)
  have heven' := h'.even_of_upper (by linarith)
  have hgap := cast_units_lt (show c' < c - 1 by omega)
  linarith

theorem Nearest.eq {q : ℚ} {c c' : ℕ} (h : Nearest q c) (h' : Nearest q c') : c = c' :=
  le_antisymm (h.le h' le_rfl) (h'.le h le_rfl)

/-- The code a number of units is rounded to, everything from half-way to 2¹⁰²⁴ on to infinity. -/
def RoundsTo (q : ℚ) (c : ℕ) : Prop := ∃ n, Nearest q n ∧ c = min n infinityCode

theorem RoundsTo.eq {q : ℚ} {c c' : ℕ} (h : RoundsTo q c) (h' : RoundsTo q c') : c = c' := by
  obtain ⟨n, hn, rfl⟩ := h
  obtain ⟨n', hn', rfl⟩ := h'
  rw [hn.eq hn']

theorem Nearest.roundsTo {q : ℚ} {c : ℕ} (h : Nearest q c) (hc : c ≤ infinityCode) :
    RoundsTo q c :=
  ⟨c, h, (min_eq_left hc).symm⟩

theorem RoundsTo.nearest {q : ℚ} {c : ℕ} (h : RoundsTo q c) (hc : c < infinityCode) :
    Nearest q c := by
  obtain ⟨n, hn, rfl⟩ := h
  rwa [min_eq_left (by omega)]

theorem roundsTo_nearestCode (num : ℕ) {den : ℕ} (hden : 0 < den) :
    RoundsTo (num / den) (nearestCode num den) := by
  have hdenq : (0 : ℚ) < den := by exact_mod_cast hden
  rw [nearestCode]
  generalize he : (num / den).log2 - 52 = e
  refine ⟨_, ?_, rfl⟩
  simp only [Nat.pow_eq]
  refine nearest_of_halfEven (by positivity) ?_ ?_ ?_
  · have := halfEven_roundDiv num (show 0 < den * 2 ^ e by positivity)
    push_cast at this
    rwa [div_div]
  · by_cases hzero : e = 0
    · exact .inl hzero
    · right
      have hlog : 2 ^ (52 + e) ≤ num / den := by
        rw [show 52 + e = (num / den).log2 by omega]
        refine Nat.log2_self_le fun hdiv => ?_
        rw [hdiv] at he
        simp at he
        omega
      rw [le_div_iff₀ hdenq]
      exact_mod_cast (Nat.le_div_iff_mul_le hden).mp hlog
  · have hlog : num / den < 2 ^ (53 + e) := by
      refine Nat.lt_log2_self.trans_le (Nat.pow_le_pow_right (by decide) ?_)
      omega
    rw [div_lt_iff₀ hdenq]
    exact_mod_cast (Nat.div_lt_iff_lt_mul hden).mp hlog

end ResumableFormulas.Binary64
