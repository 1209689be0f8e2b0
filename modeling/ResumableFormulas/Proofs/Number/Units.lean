import Mathlib.Tactic.Linarith
import Mathlib.Tactic.Ring
import ResumableFormulas.Number.Binary64

/-! # Codes and their values

The value of a code in units, from one code to the next. The distance between neighbours is a power
of two that grows with the code, and every code is less than 2⁵³ such distances away from zero.
-/
namespace ResumableFormulas.Binary64

/-- The distance from a code to the next one, in units. -/
def spacing (c : Nat) : Nat := 2 ^ (c / 2 ^ 52 - 1)

theorem spacing_pos (c : Nat) : 0 < spacing c := Nat.two_pow_pos _

theorem spacing_mono {c c' : Nat} (h : c ≤ c') : spacing c ≤ spacing c' :=
  Nat.pow_le_pow_right (by decide) (Nat.sub_le_sub_right (Nat.div_le_div_right h) 1)

/-- A significand of at most 2⁵³ distances of `2 ^ e` units. -/
theorem units_add {e n : Nat} (hn : n ≤ 2 ^ 53) (h : e = 0 ∨ 2 ^ 52 ≤ n) :
    units (e * 2 ^ 52 + n) = n * 2 ^ e := by
  simp only [units, Nat.pow_eq]
  by_cases hsmall : n < 2 ^ 52
  · obtain rfl : e = 0 := h.resolve_right (by omega)
    rw [if_pos (by omega)]
    ring
  · rw [if_neg (by omega)]
    by_cases htop : n = 2 ^ 53
    · have hdiv : (e * 2 ^ 52 + n) / 2 ^ 52 - 1 = e + 1 := by omega
      have hmod : (e * 2 ^ 52 + n) % 2 ^ 52 = 0 := by omega
      rw [hdiv, hmod, htop]
      ring
    · have hdiv : (e * 2 ^ 52 + n) / 2 ^ 52 - 1 = e := by omega
      have hmod : 2 ^ 52 + (e * 2 ^ 52 + n) % 2 ^ 52 = n := by omega
      rw [hdiv, hmod]

/-- Every code is a significand of less than 2⁵³ distances. -/
theorem exists_units_eq (c : Nat) :
    ∃ e n, c = e * 2 ^ 52 + n ∧ n < 2 ^ 53 ∧ (e = 0 ∨ 2 ^ 52 ≤ n) ∧ spacing c = 2 ^ e ∧
      units c = n * 2 ^ e := by
  by_cases hsmall : c < 2 ^ 52
  · have hspacing : spacing c = 2 ^ 0 := by
      rw [spacing, show c / 2 ^ 52 - 1 = 0 by omega]
    have hunits : units c = c * 2 ^ 0 := by
      simpa using units_add (e := 0) (n := c) (by omega) (.inl rfl)
    exact ⟨0, c, by omega, by omega, .inl rfl, hspacing, hunits⟩
  · let e := c / 2 ^ 52 - 1
    let n := 2 ^ 52 + c % 2 ^ 52
    have hc : c = e * 2 ^ 52 + n := by omega
    have hn : n < 2 ^ 53 := by omega
    have hunits := units_add (e := e) (n := n) hn.le (.inr (by omega))
    rw [← hc] at hunits
    exact ⟨e, n, hc, hn, .inr (by omega), rfl, hunits⟩

theorem units_succ (c : Nat) : units (c + 1) = units c + spacing c := by
  obtain ⟨e, n, hc, hn, he, hspacing, hunits⟩ := exists_units_eq c
  have hsucc := units_add (e := e) (n := n + 1) (by omega) (by omega)
  rw [show e * 2 ^ 52 + (n + 1) = c + 1 by omega] at hsucc
  rw [hsucc, hunits, hspacing]
  ring

theorem units_strictMono : StrictMono units :=
  strictMono_nat_of_lt_succ fun c => by
    rw [units_succ]
    exact Nat.lt_add_of_pos_right (spacing_pos c)

@[simp] theorem units_zero : units 0 = 0 := by simp [units]

theorem units_add_spacing_le (c : Nat) : units c + spacing c ≤ 2 ^ 53 * spacing c := by
  obtain ⟨e, n, -, hn, -, hspacing, hunits⟩ := exists_units_eq c
  rw [hunits, hspacing, ← Nat.succ_mul]
  exact Nat.mul_le_mul_right _ hn

end ResumableFormulas.Binary64
