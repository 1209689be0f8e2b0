import Mathlib.Tactic.Linarith
import Mathlib.Tactic.LinearCombination
import ResumableFormulas.Proofs.Number.Bits
import ResumableFormulas.Proofs.Number.Rounding

/-! # Correctly rounded arithmetic

The product and the quotient of two finite numbers are the exact ones, rounded once to the nearest
code. The exact result is known by a truncated significand and two bits for what was cut off; each
shift by one halves it, and the last one is rounded half to even.
-/
namespace ResumableFormulas.Binary64
open Float.Model (UnpackedFloat Format)
open Float.Model.UnpackedFloat (ExtendedMantissa Accuracy)

/-! ## Truncated significands -/

/-- A number cut to a significand: the two bits tell whether the fraction cut off is at least one
half, and whether it is neither zero nor one half. -/
structure CutTo (x : ℚ) (m : ExtendedMantissa) : Prop where
  le : m.mantissa ≤ x
  lt : x < m.mantissa + 1
  roundBit : m.roundBit = true ↔ m.mantissa + 1 / 2 ≤ x
  stickyBit : m.stickyBit = true ↔ x ≠ m.mantissa ∧ x ≠ m.mantissa + 1 / 2

namespace CutTo

variable {x : ℚ} {m : ExtendedMantissa}

theorem inexact_iff (h : CutTo x m) : (m.roundBit || m.stickyBit) = true ↔ x ≠ m.mantissa := by
  rw [Bool.or_eq_true, h.roundBit, h.stickyBit]
  constructor
  · rintro (hhalf | hsticky)
    · linarith
    · exact hsticky.1
  · intro hne
    by_cases hhalf : x = m.mantissa + 1 / 2
    · exact .inl hhalf.ge
    · exact .inr ⟨hne, hhalf⟩

/-- The bit shifted out is the half of the new fraction, and what was a fraction is less now. -/
theorem shiftRightOne (h : CutTo x m) : CutTo (x / 2) m.shiftRightOne := by
  have hsticky : m.shiftRightOne.stickyBit = true ↔ x ≠ m.mantissa := h.inexact_iff
  obtain ⟨hle, hlt, -, -⟩ := h
  have hdiv : (m.mantissa : ℚ) = 2 * (m.mantissa / 2 : ℕ) + (m.mantissa % 2 : ℕ) := by
    exact_mod_cast (Nat.div_add_mod m.mantissa 2).symm
  obtain ⟨n, hn⟩ : ∃ n, m.shiftRightOne.mantissa = n := ⟨_, rfl⟩
  rw [show m.mantissa / 2 = n from hn] at hdiv
  rcases Nat.mod_two_eq_zero_or_one m.mantissa with hbit | hbit
  · have hround : m.shiftRightOne.roundBit = false := by simp [ExtendedMantissa.shiftRightOne, hbit]
    rw [hbit, Nat.cast_zero, add_zero] at hdiv
    constructor <;> rw [hn]
    · linarith
    · linarith
    · simp only [hround, Bool.false_eq_true, false_iff, not_le]
      linarith
    · rw [hsticky]
      constructor
      · intro hne
        exact ⟨fun heq => hne (by linarith), fun heq => by linarith⟩
      · intro hne heq
        exact hne.1 (by linarith)
  · have hround : m.shiftRightOne.roundBit = true := by simp [ExtendedMantissa.shiftRightOne, hbit]
    rw [hbit, Nat.cast_one] at hdiv
    constructor <;> rw [hn]
    · linarith
    · linarith
    · simp only [hround, true_iff]
      linarith
    · rw [hsticky]
      constructor
      · intro hne
        exact ⟨fun heq => by linarith, fun heq => hne (by linarith)⟩
      · intro hne heq
        exact hne.2 (by linarith)

theorem shiftRight (h : CutTo x m) (k : ℕ) : CutTo (x / 2 ^ k) (m >>> k) := by
  induction k with
  | zero =>
    rw [pow_zero, div_one]
    exact h
  | succ k ih =>
    have hstep := ih.shiftRightOne
    rwa [div_div, ← pow_succ] at hstep

theorem halfEven (h : CutTo x m) : HalfEven x m.roundedMantissa := by
  obtain ⟨n, round, sticky⟩ := m
  obtain ⟨hle, hlt, hround, hsticky⟩ := h
  simp only at hle hlt hround hsticky
  cases round with
  | false =>
    have hbelow : x < n + 1 / 2 := by simpa using hround
    -- The significand stays, whether the fraction is zero or not.
    have hrounded : (ExtendedMantissa.mk n false sticky).roundedMantissa = n := by
      cases sticky <;> rfl
    rw [hrounded]
    exact ⟨by linarith, by linarith, fun heq => by linarith, fun heq => by linarith⟩
  | true =>
    have habove : n + 1 / 2 ≤ x := by simpa using hround
    cases sticky with
    | false =>
      have hhalf : x = n + 1 / 2 := by
        by_contra hne
        have := hsticky.mpr ⟨by linarith, hne⟩
        contradiction
      have hrounded : (ExtendedMantissa.mk n true false).roundedMantissa = n + n % 2 := rfl
      have heven : (n + n % 2) % 2 = 0 := by omega
      have hbit : (n % 2 : ℕ) = (0 : ℚ) ∨ (n % 2 : ℕ) = (1 : ℚ) := by
        exact_mod_cast Nat.mod_two_eq_zero_or_one n
      rw [hrounded]
      refine ⟨?_, ?_, fun _ => heven, fun _ => heven⟩
      all_goals
        push_cast
        rcases hbit with h | h <;> linarith
    | true =>
      have hne := hsticky.mp rfl
      have habove' : n + 1 / 2 < x := lt_of_le_of_ne habove hne.2.symm
      have hrounded : (ExtendedMantissa.mk n true true).roundedMantissa = n + 1 := rfl
      rw [hrounded]
      refine ⟨?_, ?_, fun heq => ?_, fun heq => ?_⟩ <;> push_cast at * <;> linarith

end CutTo

theorem cutTo_add {f : ℚ} (n : ℕ) {round sticky : Bool} (hnonneg : 0 ≤ f) (hlt : f < 1)
    (hround : round = true ↔ 1 / 2 ≤ f) (hsticky : sticky = true ↔ f ≠ 0 ∧ f ≠ 1 / 2) :
    CutTo (n + f) ⟨n, round, sticky⟩ :=
  ⟨by simpa using hnonneg, by simpa using hlt, by simpa using hround, by simpa using hsticky⟩

theorem cutTo_exact (n : ℕ) : CutTo n (ExtendedMantissa.ofMantissaAndAccuracy n .exact) := by
  have h : CutTo (n + 0) ⟨n, false, false⟩ :=
    cutTo_add n le_rfl one_pos (by simp) (by simp)
  rwa [add_zero] at h

theorem cutTo_div (num : ℕ) {den : ℕ} (hden : 0 < den) :
    CutTo (num / den) (ExtendedMantissa.ofMantissaAndAccuracy (num / den)
      (UnpackedFloat.accuracyOfFraction (num % den) den)) := by
  have hlt := fraction_lt_one num hden
  have hhalf := div_lt_half_iff (num % den) hden
  have htie := div_eq_half_iff (num % den) hden
  rw [div_eq_div_add_fraction num hden, UnpackedFloat.accuracyOfFraction]
  by_cases hexact : num % den = 0
  · rw [if_pos hexact, hexact, Nat.cast_zero, zero_div, add_zero]
    exact cutTo_exact _
  · have hpos : (0 : ℚ) < (num % den : ℕ) / den := by
      have : 0 < num % den := by omega
      positivity
    rw [if_neg hexact]
    generalize ((num % den : ℕ) : ℚ) / den = f at hlt hhalf htie hpos
    cases hside : compare (2 * (num % den)) den with
    | lt =>
      have hless := hhalf.mpr (Nat.compare_eq_lt.mp hside)
      exact cutTo_add _ hpos.le hlt (by simpa using hless)
        (iff_of_true rfl ⟨hpos.ne', hless.ne⟩)
    | eq =>
      have heq := htie.mpr (Nat.compare_eq_eq.mp hside)
      exact cutTo_add _ hpos.le hlt (by simp [heq]) (by simp [heq])
    | gt =>
      have hmore := Nat.compare_eq_gt.mp hside
      have hle : 1 / 2 ≤ f := not_lt.mp fun hless => by
        have := hhalf.mp hless
        omega
      have hne : f ≠ 1 / 2 := fun heq => by
        have := htie.mp heq
        omega
      exact cutTo_add _ hpos.le hlt (by simpa using hle)
        (iff_of_true rfl ⟨hpos.ne', hne⟩)

/-! ## One rounding -/

theorem targetExponent_eq (k : ℤ) :
    Format.binary64.targetExponent k = max (k - 53) (-1074) := rfl

theorem exists_max_eq (k : ℤ) : ∃ e : ℕ, max k (-1074) = e - 1074 :=
  ⟨(max k (-1074) + 1074).toNat, by omega⟩

theorem shiftToTargetExponent_eq {n : ℕ} {exponent : ℤ} {accuracy : Accuracy} {shift : ℕ}
    (h : max (n.log2 + 1 + exponent - 53) (-1074) - exponent = shift ∨
      max (n.log2 + 1 + exponent - 53) (-1074) - exponent ≤ 0 ∧ shift = 0) :
    UnpackedFloat.shiftToTargetExponent Format.binary64 n exponent accuracy =
      (ExtendedMantissa.ofMantissaAndAccuracy n accuracy >>> shift, exponent + shift) := by
  have hshift : (max (n.log2 + 1 + exponent - 53) (-1074) - exponent).toNat = shift := by omega
  rw [UnpackedFloat.shiftToTargetExponent, UnpackedFloat.shiftToExponent, targetExponent_eq,
    Float.Model.totalExponent, hshift]

/-- A significand rounded for its exponent. If it was rounded up to 2⁵³, it is halved once more. -/
theorem unpacked_normalized (negative : Bool) {e n : ℕ} (hhigh : n ≤ 2 ^ 53)
    (hlow : e = 0 ∨ 2 ^ 52 ≤ n) :
    let shifted := UnpackedFloat.shiftToTargetExponent Format.binary64 n (e - 1074) .exact
    Unpacked negative (e * 2 ^ 52 + n)
      (if h : shifted.1.mantissa = 0 then .zero (signOf negative)
        else .finite (signOf negative) shifted.1.mantissa shifted.2 (Nat.pos_of_ne_zero h)) := by
  by_cases hcarry : n = 2 ^ 53
  · subst hcarry
    have hlog : (2 ^ 53 : ℕ).log2 = 53 := by decide
    have hhalf : (ExtendedMantissa.ofMantissaAndAccuracy (2 ^ 53) .exact >>> 1).mantissa = 2 ^ 52 :=
      rfl
    rw [shiftToTargetExponent_eq (show _ = ((1 : ℕ) : ℤ) ∨ _ from .inl (by omega))]
    simp only [hhalf]
    exact .finite (e := e + 1) _ (by decide) (.inr le_rfl) (by push_cast; ring) (by omega)
  · have hlog : n.log2 < 53 := by
      by_cases hzero : n = 0
      · rw [hzero]
        decide
      · exact (Nat.log2_lt hzero).mpr (by omega)
    have hsame : (ExtendedMantissa.ofMantissaAndAccuracy n .exact >>> 0).mantissa = n := rfl
    rw [shiftToTargetExponent_eq (show _ ∨ _ ∧ 0 = 0 from .inr ⟨by omega, rfl⟩)]
    simp only [hsame]
    split
    case isTrue hzero =>
      obtain rfl : e = 0 := by omega
      rw [hzero]
      exact .zero
    case isFalse hpos =>
      exact .finite _ (by omega) hlow (by push_cast; ring) rfl

/-- Rounding at the exponent the significand calls for. -/
theorem unpacked_roundWithAccuracy (negative : Bool) {x : ℚ} {n e shift : ℕ} {exponent : ℤ}
    {accuracy : Accuracy} (hcut : CutTo x (ExtendedMantissa.ofMantissaAndAccuracy n accuracy))
    (hexponent : exponent + shift = e - 1074)
    (htarget : max (n.log2 + 1 + exponent - 53) (-1074) = e - 1074) :
    ∃ c, Nearest (x / 2 ^ shift * 2 ^ e) c ∧ Unpacked negative c
      (UnpackedFloat.roundWithAccuracy Format.binary64 (signOf negative) n exponent accuracy) := by
  have hmantissa : (ExtendedMantissa.ofMantissaAndAccuracy n accuracy).mantissa = n := by
    rcases accuracy with _ | (_ | _ | _) <;> rfl
  have hle := hcut.le
  have hlt := hcut.lt
  rw [hmantissa] at hle hlt
  have hrounded := (hcut.shiftRight shift).halfEven
  obtain ⟨r, hr⟩ : ∃ r, (ExtendedMantissa.ofMantissaAndAccuracy n accuracy >>>
    shift).roundedMantissa = r := ⟨_, rfl⟩
  rw [hr] at hrounded
  have hpow : (0 : ℚ) < 2 ^ shift := by positivity
  have hhigh : x / 2 ^ shift < 2 ^ 53 := by
    have hn : n < 2 ^ (53 + shift) :=
      Nat.lt_log2_self.trans_le (Nat.pow_le_pow_right (by decide) (by omega))
    rw [div_lt_iff₀ hpow, ← pow_add]
    exact hlt.trans_le (by exact_mod_cast hn)
  have hlow : e = 0 ∨ 2 ^ 52 ≤ x / 2 ^ shift := by
    by_cases hzero : e = 0
    · exact .inl hzero
    · have hlog : n.log2 = 52 + shift := by omega
      have hn : 2 ^ (52 + shift) ≤ n := by
        rw [← hlog]
        refine Nat.log2_self_le fun hn => ?_
        rw [hn, Nat.log2_zero] at hlog
        omega
      rw [le_div_iff₀ hpow, ← pow_add]
      exact .inr (le_trans (by exact_mod_cast hn) hle)
  have hrhigh : r ≤ 2 ^ 53 := hrounded.le_of_le (by exact_mod_cast hhigh.le)
  have hrlow : e = 0 ∨ 2 ^ 52 ≤ r := hlow.imp_right fun h => hrounded.ge_of_ge (by exact_mod_cast h)
  refine ⟨e * 2 ^ 52 + r, ?_, ?_⟩
  · have hscale : (0 : ℚ) < 2 ^ e := by positivity
    refine nearest_of_halfEven ?_ ?_ ?_ ?_
    · have : 0 ≤ x := le_trans (Nat.cast_nonneg n) hle
      positivity
    · rwa [mul_div_cancel_right₀ _ hscale.ne']
    · rw [pow_add]
      exact hlow.imp_right fun h => mul_le_mul_of_nonneg_right h hscale.le
    · rw [pow_add]
      exact mul_lt_mul_of_pos_right hhigh hscale
  · rw [UnpackedFloat.roundWithAccuracy,
      shiftToTargetExponent_eq (show _ = (shift : ℤ) ∨ _ from .inl (by omega))]
    simp only [hr, hexponent]
    exact unpacked_normalized negative hrhigh hrlow

/-! ## Products and quotients -/

theorem cast_unitsPerOne : (unitsPerOne : ℚ) = 2 ^ 1074 := by
  unfold unitsPerOne
  generalize 1074 = k
  exact Nat.cast_pow 2 k

theorem unitsPerOne_pos : 0 < unitsPerOne := by
  unfold unitsPerOne
  generalize 1074 = k
  exact Nat.two_pow_pos k

theorem cast_unitsPerOne_pos : (0 : ℚ) < unitsPerOne := Nat.cast_pos.mpr unitsPerOne_pos

theorem units_of_finite {c e n : ℕ} (hhigh : n < 2 ^ 53) (hlow : e = 0 ∨ 2 ^ 52 ≤ n)
    (hc : c = e * 2 ^ 52 + n) : (units c : ℚ) = n * 2 ^ e := by
  rw [hc, units_add hhigh.le hlow]
  push_cast
  rfl

theorem nearest_zero : Nearest 0 0 := by
  simpa using nearest_units 0

section Operations

variable {s s' : Bool} {c c' : ℕ} {f f' : UnpackedFloat}

theorem Unpacked.mul (h : Unpacked s c f) (h' : Unpacked s' c' f') (hc : c < infinityCode)
    (hc' : c' < infinityCode) :
    ∃ n, Nearest (units c * units c' / unitsPerOne) n ∧
      Unpacked (s ^^ s') n (UnpackedFloat.mul Format.binary64 f f') := by
  cases h with
  | infinite => exact absurd hc (lt_irrefl _)
  | zero =>
    refine ⟨0, by rw [units_zero, Nat.cast_zero, zero_mul, zero_div]; exact nearest_zero, ?_⟩
    cases h' with
    | infinite => exact absurd hc' (lt_irrefl _)
    | zero =>
      rw [UnpackedFloat.mul, signOf_mul]
      exact .zero
    | finite =>
      rw [UnpackedFloat.mul, signOf_mul]
      exact .zero
  | @finite _ e n _ hn hhigh hlow hexponent hsum =>
    cases h' with
    | infinite => exact absurd hc' (lt_irrefl _)
    | zero =>
      refine ⟨0, by rw [units_zero, Nat.cast_zero, mul_zero, zero_div]; exact nearest_zero, ?_⟩
      rw [UnpackedFloat.mul, signOf_mul]
      exact .zero
    | @finite _ e' n' _ hn' hhigh' hlow' hexponent' hsum' =>
      -- The exponent of the product is at most the one its digits call for: no left shift arises.
      have hlog : e + e' ≤ 1074 ∨ 52 ≤ (n * n').log2 := by
        by_cases hsmall : e + e' ≤ 1074
        · exact .inl hsmall
        · refine .inr ((Nat.le_log2 (by positivity)).mpr ?_)
          rcases (show 2 ^ 52 ≤ n ∨ 2 ^ 52 ≤ n' by omega) with hbig | hbig
          · exact hbig.trans (Nat.le_mul_of_pos_right n hn')
          · exact hbig.trans (Nat.le_mul_of_pos_left n' hn)
      obtain ⟨E, hE⟩ :=
        exists_max_eq ((n * n').log2 + 1 + ((e : ℤ) - 1074 + ((e' : ℤ) - 1074)) - 53)
      obtain ⟨shift, hshift⟩ : ∃ shift : ℕ, e + e' + shift = E + 1074 :=
        ⟨E + 1074 - (e + e'), by omega⟩
      rw [UnpackedFloat.mul, signOf_mul, hexponent, hexponent']
      obtain ⟨k, hk, hunpacked⟩ := unpacked_roundWithAccuracy (s ^^ s') (cutTo_exact (n * n'))
        (show (e - 1074 + (e' - 1074) : ℤ) + shift = E - 1074 by omega) hE
      refine ⟨k, ?_, hunpacked⟩
      have hpow : (2 : ℚ) ^ e * 2 ^ e' * 2 ^ shift = 2 ^ E * unitsPerOne := by
        rw [cast_unitsPerOne, ← pow_add, ← pow_add, ← pow_add, hshift]
      have hexact : ((n * n' : ℕ) : ℚ) / 2 ^ shift * 2 ^ E =
          units c * units c' / unitsPerOne := by
        rw [units_of_finite hhigh hlow hsum, units_of_finite hhigh' hlow' hsum',
          div_mul_eq_mul_div, div_eq_div_iff (by positivity) cast_unitsPerOne_pos.ne']
        push_cast
        linear_combination -(n * n' : ℚ) * hpow
      rwa [← hexact]

/-- The quotient of significands, the first of them shifted so that the quotient has enough digits,
however many its exponent calls for. -/
theorem exists_divCore_eq {n n' : ℕ} (e e' : ℤ) (hn : 0 < n) (hn' : 0 < n') :
    ∃ shift : ℕ, UnpackedFloat.divCore Format.binary64 n e n' e' =
        (n * 2 ^ shift / n', e - e' - shift,
          UnpackedFloat.accuracyOfFraction (n * 2 ^ shift % n') n') ∧
      e - e' - shift ≤ max ((n * 2 ^ shift / n').log2 + 1 + (e - e' - shift) - 53) (-1074) := by
  obtain ⟨target, htarget⟩ : ∃ target : ℤ, min (e - e')
      (max (n.log2 + 1 + e - (n'.log2 + 1 + e') - 53) (-1074)) = target := ⟨_, rfl⟩
  obtain ⟨shift, hshift⟩ : ∃ shift : ℕ, e - e' - target = shift :=
    ⟨(e - e' - target).toNat, by omega⟩
  refine ⟨shift, ?_, ?_⟩
  · simp only [UnpackedFloat.divCore, targetExponent_eq, Float.Model.totalExponent, htarget, hshift,
      Int.toNat_natCast, Nat.shiftLeft_eq]
    rw [show e - e' - (shift : ℤ) = target by omega]
  · by_cases hmin : e - e' - shift ≤ -1074
    · exact le_max_of_le_right hmin
    · have hdigits : n'.log2 + 53 ≤ n.log2 + shift := by omega
      have hquotient : 2 ^ 52 ≤ n * 2 ^ shift / n' := by
        rw [Nat.le_div_iff_mul_le hn']
        calc 2 ^ 52 * n' ≤ 2 ^ 52 * 2 ^ (n'.log2 + 1) :=
              Nat.mul_le_mul_left _ Nat.lt_log2_self.le
          _ = 2 ^ (n'.log2 + 53) := by rw [← Nat.pow_add]; congr 1; omega
          _ ≤ 2 ^ (n.log2 + shift) := Nat.pow_le_pow_right (by decide) hdigits
          _ = 2 ^ n.log2 * 2 ^ shift := Nat.pow_add ..
          _ ≤ n * 2 ^ shift := Nat.mul_le_mul_right _ (Nat.log2_self_le hn.ne')
      have hlog : 52 ≤ (n * 2 ^ shift / n').log2 := (Nat.le_log2 (by omega)).mpr hquotient
      exact le_max_of_le_left (by omega)

theorem Unpacked.div (h : Unpacked s c f) (h' : Unpacked s' c' f') (hc : c < infinityCode)
    (hc' : c' < infinityCode) (hpos : 0 < c') :
    ∃ n, Nearest (units c * unitsPerOne / units c') n ∧
      Unpacked (s ^^ s') n (UnpackedFloat.div Format.binary64 f f') := by
  cases h' with
  | infinite => exact absurd hc' (lt_irrefl _)
  | zero => exact absurd hpos (lt_irrefl _)
  | @finite _ e' n' exponent' hn' hhigh' hlow' hexponent' hsum' =>
    cases h with
    | infinite => exact absurd hc (lt_irrefl _)
    | zero =>
      refine ⟨0, by rw [units_zero, Nat.cast_zero, zero_mul, zero_div]; exact nearest_zero, ?_⟩
      rw [UnpackedFloat.div, signOf_div]
      exact .zero
    | @finite _ e n exponent hn hhigh hlow hexponent hsum =>
      rw [UnpackedFloat.div, signOf_div]
      obtain ⟨lift, hcore, htarget⟩ := exists_divCore_eq exponent exponent' hn hn'
      rw [hcore]
      obtain ⟨E, hE⟩ :=
        exists_max_eq ((n * 2 ^ lift / n').log2 + 1 + (exponent - exponent' - lift) - 53)
      obtain ⟨shift, hshift⟩ : ∃ shift : ℕ, e + 1074 + shift = E + e' + lift :=
        ⟨E + e' + lift - (e + 1074), by omega⟩
      obtain ⟨k, hk, hunpacked⟩ :=
        unpacked_roundWithAccuracy (s ^^ s') (cutTo_div (n * 2 ^ lift) hn')
          (show exponent - exponent' - lift + shift = E - 1074 by omega) hE
      refine ⟨k, ?_, hunpacked⟩
      have hpow : (2 : ℚ) ^ e * unitsPerOne * 2 ^ shift = 2 ^ E * 2 ^ e' * 2 ^ lift := by
        rw [cast_unitsPerOne, ← pow_add, ← pow_add, ← pow_add, ← pow_add, hshift]
      have hexact : ((n * 2 ^ lift : ℕ) : ℚ) / n' / 2 ^ shift * 2 ^ E =
          units c * unitsPerOne / units c' := by
        have hn'q : (0 : ℚ) < n' := by exact_mod_cast hn'
        rw [units_of_finite hhigh hlow hsum, units_of_finite hhigh' hlow' hsum', div_div,
          div_mul_eq_mul_div, div_eq_div_iff (by positivity) (by positivity)]
        push_cast
        linear_combination -(n * n' : ℚ) * hpow
      rwa [← hexact]

theorem Unpacked.neg (h : Unpacked s c f) : Unpacked (!s) c f.neg := by
  cases h with
  | zero =>
    rw [UnpackedFloat.neg, signOf_neg]
    exact .zero
  | infinite =>
    rw [UnpackedFloat.neg, signOf_neg]
    exact .infinite
  | finite hn hhigh hlow hexponent hc =>
    rw [UnpackedFloat.neg, signOf_neg]
    exact .finite hn hhigh hlow hexponent hc

end Operations

section Float

variable {x y : Float} (hx : code x < infinityCode) (hy : code y < infinityCode)

include hx hy in
/-- Multiplication rounds the exact product. -/
theorem roundsTo_mul : RoundsTo (units (code x) * units (code y) / unitsPerOne) (code (x * y)) ∧
    isNegative (x * y) = (isNegative x ^^ isNegative y) := by
  obtain ⟨n, hn, h⟩ := (unpacked_toModel x hx.le).mul (unpacked_toModel y hy.le) hx hy
  exact ⟨⟨n, hn, h.packed.2⟩, h.packed.1⟩

include hx hy in
/-- Division by a number other than zero rounds the exact quotient. -/
theorem roundsTo_div (hpos : 0 < code y) :
    RoundsTo (units (code x) * unitsPerOne / units (code y)) (code (x / y)) ∧
      isNegative (x / y) = (isNegative x ^^ isNegative y) := by
  obtain ⟨n, hn, h⟩ := (unpacked_toModel x hx.le).div (unpacked_toModel y hy.le) hx hy hpos
  exact ⟨⟨n, hn, h.packed.2⟩, h.packed.1⟩

/-- Negation turns the sign over and nothing else. -/
theorem neg_sign_and_code (h : code x ≤ infinityCode) :
    isNegative (-x) = (!isNegative x) ∧ code (-x) = code x := by
  have hneg := (unpacked_toModel x h).neg.packed
  rwa [min_eq_left h] at hneg

end Float

end ResumableFormulas.Binary64
