import Mathlib.Algebra.Order.Archimedean.Basic
import Mathlib.Data.Rat.Floor
import ResumableFormulas.Proofs.Number.Rounding

/-! # The error of rounding

Two numbers are close up to a factor if each is at most the other times the factor. Rounding a
normal number gives a close one, and close numbers have close products and quotients, so the factors
of a computation in several steps multiply. Numbers that are close enough are rounded to codes at
most two apart, at whatever size.
-/
namespace ResumableFormulas.Binary64

/-- Each of two numbers is at most the other times a factor. -/
structure Close (r a b : ℚ) : Prop where
  le : a ≤ b * r
  ge : b ≤ a * r

namespace Close

variable {r s a b c d : ℚ}

theorem symm (h : Close r a b) : Close r b a := ⟨h.ge, h.le⟩

theorem refl (a : ℚ) : Close 1 a a := ⟨by simp, by simp⟩

theorem eq (h : Close 1 a b) : a = b := le_antisymm (by simpa using h.le) (by simpa using h.ge)

theorem trans (hr : 0 ≤ r) (hs : 0 ≤ s) (h : Close r a b) (h' : Close s b c) :
    Close (r * s) a c := by
  constructor
  · calc a ≤ b * r := h.le
      _ ≤ c * s * r := mul_le_mul_of_nonneg_right h'.le hr
      _ = c * (r * s) := by ring
  · calc c ≤ b * s := h'.ge
      _ ≤ a * r * s := mul_le_mul_of_nonneg_right h.ge hs
      _ = a * (r * s) := by ring

theorem mul_right (hc : 0 ≤ c) (h : Close r a b) : Close r (a * c) (b * c) := by
  constructor
  · calc a * c ≤ b * r * c := mul_le_mul_of_nonneg_right h.le hc
      _ = b * c * r := by ring
  · calc b * c ≤ a * r * c := mul_le_mul_of_nonneg_right h.ge hc
      _ = a * c * r := by ring

theorem div_right (hc : 0 ≤ c) (h : Close r a b) : Close r (a / c) (b / c) := by
  simpa [div_eq_mul_inv] using h.mul_right (inv_nonneg.mpr hc)

/-- Numbers by which a third one is divided. -/
theorem div_left (ha : 0 < a) (hb : 0 < b) (hc : 0 ≤ c) (h : Close r a b) :
    Close r (c / a) (c / b) := by
  constructor
  · rw [div_mul_eq_mul_div, div_le_div_iff₀ ha hb, mul_assoc, mul_comm r]
    exact mul_le_mul_of_nonneg_left h.ge hc
  · rw [div_mul_eq_mul_div, div_le_div_iff₀ hb ha, mul_assoc, mul_comm r]
    exact mul_le_mul_of_nonneg_left h.le hc

end Close

/-! ## One rounding -/

section Single

variable {q : ℚ} {b c e : ℕ}

theorem spacing_le_of_lt (h : c < e * 2 ^ 52 + 2 ^ 53) : spacing c ≤ 2 ^ e :=
  Nat.pow_le_pow_right (by decide) (by omega)

/-- The error of a number of at most `2 ^ (53 + e)` units. -/
theorem Nearest.error (h : Nearest q c) (hq : q ≤ 2 ^ (53 + e)) :
    2 * q ≤ 2 * units c + 2 ^ e ∧ 2 * (units c : ℚ) ≤ 2 * q + 2 ^ e := by
  have hpow : (0 : ℚ) < 2 ^ e := by positivity
  have htop : (units (e * 2 ^ 52 + 2 ^ 53) : ℚ) = 2 ^ (53 + e) := by
    rw [units_add (by decide) (.inr (by decide)), pow_add]
    norm_num
  have hc : c ≤ e * 2 ^ 52 + 2 ^ 53 := h.le (nearest_units _) (by rwa [htop])
  constructor
  -- From the top code on the distance doubles, but the number is not above it.
  · by_cases heq : c = e * 2 ^ 52 + 2 ^ 53
    · rw [heq, htop]
      linarith
    · have hspacing : (spacing c : ℚ) ≤ 2 ^ e := by
        exact_mod_cast spacing_le_of_lt (show c < e * 2 ^ 52 + 2 ^ 53 by omega)
      linarith [h.upper, cast_units_succ c]
  · cases c with
    | zero => linarith [h.lower, show (units (0 - 1) : ℚ) = units 0 from rfl]
    | succ p =>
      have hspacing : (spacing p : ℚ) ≤ 2 ^ e := by
        exact_mod_cast spacing_le_of_lt (show p < e * 2 ^ 52 + 2 ^ 53 by omega)
      have hlower := h.lower
      rw [Nat.add_sub_cancel] at hlower
      linarith [cast_units_succ p]

/-- The relative error of a number between `units b` and `2 ^ (53 + e)` units. -/
theorem Nearest.close_of_le (h : Nearest q c) (hpos : 0 < b) (hlow : units b ≤ q)
    (hhigh : q ≤ 2 ^ (53 + e)) : Close (1 + 2 ^ e / (2 * units b)) q (units c) := by
  have hb : (0 : ℚ) < units b := by
    have := cast_units_lt hpos
    simpa using this
  have hc : (units b : ℚ) ≤ units c := cast_units_le ((nearest_units b).le h hlow)
  have herror := h.error hhigh
  have hhalf : ∀ x : ℚ, units b ≤ x → (2 : ℚ) ^ e / 2 ≤ x * (2 ^ e / (2 * units b)) := by
    intro x hx
    calc (2 : ℚ) ^ e / 2 = units b * (2 ^ e / (2 * units b)) := by field_simp
      _ ≤ x * (2 ^ e / (2 * units b)) := mul_le_mul_of_nonneg_right hx (by positivity)
  constructor
  · linarith [hhalf _ hc]
  · linarith [hhalf _ hlow]

/-- The factor of one rounding among the normal numbers. -/
def roundoff : ℚ := 1 + 1 / 2 ^ 53

/-- Rounding a normal number. -/
theorem Nearest.close (h : Nearest q c) (hq : 2 ^ 52 ≤ q) : Close roundoff q (units c) := by
  obtain ⟨e, hlow, hhigh⟩ : ∃ e : ℕ, (2 : ℚ) ^ e ≤ q / 2 ^ 52 ∧ q / 2 ^ 52 < 2 ^ (e + 1) :=
    exists_nat_pow_near (by rwa [le_div_iff₀ (by positivity), one_mul]) one_lt_two
  rw [le_div_iff₀ (by positivity)] at hlow
  rw [div_lt_iff₀ (by positivity)] at hhigh
  have hb : (units (e * 2 ^ 52 + 2 ^ 52) : ℚ) = 2 ^ e * 2 ^ 52 := by
    rw [units_add (by decide) (.inr le_rfl)]
    push_cast
    ring
  have hclose := h.close_of_le (b := e * 2 ^ 52 + 2 ^ 52) (e := e) (by omega)
    (by rwa [hb]) (hhigh.le.trans_eq (by ring))
  rw [hb] at hclose
  have hfactor : 1 + (2 : ℚ) ^ e / (2 * (2 ^ e * 2 ^ 52)) = roundoff := by
    rw [roundoff]
    field_simp
  rwa [hfactor] at hclose

end Single

/-! ## How far apart two codes are -/

section Apart

variable {q q' r : ℚ} {c c' : ℕ}

theorem cast_units_add_two (c : ℕ) : (units c + 2 * spacing c : ℚ) ≤ units (c + 2) := by
  have hspacing : (spacing c : ℚ) ≤ spacing (c + 1) := by
    exact_mod_cast spacing_mono (Nat.le_succ c)
  rw [cast_units_succ (c + 1), cast_units_succ c]
  linarith

/-- Half-way points two codes apart are more than two distances apart. -/
theorem halfway_add_two (c : ℕ) :
    (units c + units (c + 1) + 4 * spacing c : ℚ) ≤ units (c + 2) + units (c + 3) := by
  have hspacing : (spacing c : ℚ) ≤ spacing (c + 1) := by
    exact_mod_cast spacing_mono (Nat.le_succ c)
  linarith [cast_units_add_two c, cast_units_add_two (c + 1)]

theorem Nearest.le_add_two_of_lt (h : Nearest q c) (h' : Nearest q' c')
    (hq : 2 * q < 2 * q' + 4 * spacing c') : c ≤ c' + 2 := by
  by_contra hlt
  have hprev := cast_units_le (show c' + 2 ≤ c - 1 by omega)
  have hnext := cast_units_le (show c' + 3 ≤ c by omega)
  linarith [h.lower, h'.upper, halfway_add_two c']

/-- Two roundings that are close at most up to the relative distance of two codes. -/
theorem Nearest.le_add_two (h : Nearest q c) (h' : Nearest q' c') (hr : 1 ≤ r)
    (hr' : (2 ^ 54 - 1) * (r - 1) < 4) (hq : q ≤ q' * r) : c ≤ c' + 2 := by
  have hw : (0 : ℚ) < spacing c' := by exact_mod_cast spacing_pos c'
  have hq' : 2 * q' ≤ (2 ^ 54 - 1) * spacing c' := by
    have hunits : (units c' + spacing c' : ℚ) ≤ 2 ^ 53 * spacing c' := by
      exact_mod_cast units_add_spacing_le c'
    linarith [h'.upper, cast_units_succ c']
  refine h.le_add_two_of_lt h' ?_
  have hexcess : 2 * q' * (r - 1) < 4 * spacing c' := by
    calc 2 * q' * (r - 1) ≤ (2 ^ 54 - 1) * spacing c' * (r - 1) :=
          mul_le_mul_of_nonneg_right hq' (by linarith)
      _ = (2 ^ 54 - 1) * (r - 1) * spacing c' := by ring
      _ < 4 * spacing c' := mul_lt_mul_of_pos_right hr' hw
  linarith

/-- At most two codes apart. -/
def WithinTwo (c c' : ℕ) : Prop := c ≤ c' + 2 ∧ c' ≤ c + 2

theorem Nearest.withinTwo (h : Nearest q c) (h' : Nearest q' c') (hr : 1 ≤ r)
    (hr' : (2 ^ 54 - 1) * (r - 1) < 4) (hclose : Close r q q') : WithinTwo c c' :=
  ⟨h.le_add_two h' hr hr' hclose.le, h'.le_add_two h hr hr' hclose.ge⟩

/-- Two roundings of numbers less than two units apart. -/
theorem Nearest.withinTwo_of_units (h : Nearest q c) (h' : Nearest q' c') (hle : q < q' + 2)
    (hge : q' < q + 2) : WithinTwo c c' := by
  have hw : ∀ c : ℕ, (1 : ℚ) ≤ spacing c := fun c => by exact_mod_cast spacing_pos c
  exact ⟨h.le_add_two_of_lt h' (by linarith [hw c']), h'.le_add_two_of_lt h (by linarith [hw c])⟩

end Apart

end ResumableFormulas.Binary64
