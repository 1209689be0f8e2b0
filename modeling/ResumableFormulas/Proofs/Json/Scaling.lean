import ResumableFormulas.Json.Number
import ResumableFormulas.Proofs.Number.Error
import ResumableFormulas.Proofs.Number.Shortest

/-! # A significand times a power of ten

The reader rounds the significand, the power of ten and their product or quotient, and below 10⁻³⁰⁸
it divides once more. For the significands and exponents that are ever written, the result is finite
and at most two codes away from the number nearest to the exact value, and it is that number where
significand and power are exact.
-/
namespace ResumableFormulas.Numeral
open Binary64
open Decimal (gridStep gridStep_pos gridStep_add units_mk)

/-- A positive finite number, the nearest to a number of units. -/
structure Rounds (q : ℚ) (x : Float) : Prop where
  finite : code x < infinityCode
  positive : isNegative x = false
  nearest : Nearest q (code x)

/-- A positive finite number, close to a number of units up to a factor. -/
structure Approximates (r q : ℚ) (x : Float) : Prop where
  finite : code x < infinityCode
  positive : isNegative x = false
  close : Close r q (units (code x))

theorem Rounds.approximates {q : ℚ} {x : Float} (h : Rounds q x) (hq : 2 ^ 52 ≤ q) :
    Approximates roundoff q x :=
  ⟨h.finite, h.positive, h.nearest.close hq⟩

/-! ## The operands -/

section Operands

theorem nearestCode_lt {num b : ℕ} (hle : num ≤ units b) (hb : b < infinityCode) :
    nearestCode num 1 < infinityCode := by
  obtain ⟨n, hn, hcode⟩ := roundsTo_nearestCode num Nat.one_pos
  rw [Nat.cast_one, div_one] at hn
  have hnb := hn.le (nearest_units b) (Nat.cast_le.mpr hle)
  omega

theorem rounds_ofCode {num : ℕ} (hc : nearestCode num 1 < infinityCode) :
    Rounds num (ofCode false (nearestCode num 1)) := by
  have hrounds := roundsTo_nearestCode num Nat.one_pos
  rw [Nat.cast_one, div_one] at hrounds
  refine ⟨by rwa [code_ofCode _ hc.le], isNegative_ofCode _ hc.le, ?_⟩
  rw [code_ofCode _ hc.le]
  exact hrounds.nearest hc

/-- The significands that are read have at most 17 digits. -/
theorem rounds_ofNat {n : ℕ} (hn : n ≤ 10 ^ 17) : Rounds (n * unitsPerOne) (ofNat n) := by
  have hbound : 10 ^ 17 * unitsPerOne ≤ units (1080 * 2 ^ 52) := by decide +kernel
  have hrounds := rounds_ofCode
    (nearestCode_lt ((Nat.mul_le_mul_right unitsPerOne hn).trans hbound) (by decide +kernel))
  rwa [Nat.cast_mul] at hrounds

theorem gridStep_natCast (k : ℕ) : gridStep k = (Nat.pow 10 k * unitsPerOne : ℕ) := by
  rw [Nat.cast_mul, Nat.pow_eq, Nat.cast_pow, gridStep, zpow_natCast]
  rfl

/-- The powers of ten by which the reader multiplies and divides are in range. -/
theorem rounds_powerOfTen {k : ℕ} (hk : k ≤ largestPower) :
    Rounds (gridStep k) (powerOfTen k) := by
  have hbound : Nat.pow 10 largestPower * unitsPerOne ≤ units (2046 * 2 ^ 52 + 2 ^ 51) := by
    decide +kernel
  have hpower : Nat.pow 10 k ≤ Nat.pow 10 largestPower := by
    generalize largestPower = top at hk
    exact Nat.pow_le_pow_right (by decide) hk
  have hcode : powerOfTen k = ofCode false (nearestCode (Nat.pow 10 k * unitsPerOne) 1) := by
    have hlarge : ¬309 < k := by
      rw [largestPower] at hk
      omega
    simp only [powerOfTen, Decimal.toFloat, Decimal.nearestCode, Nat.one_ne_zero, if_false, one_mul]
    rw [if_neg hlarge]
  rw [hcode, gridStep_natCast]
  exact rounds_ofCode
    (nearestCode_lt ((Nat.mul_le_mul_right unitsPerOne hpower).trans hbound) (by decide +kernel))

/-! ## Closeness of the operands -/

theorem unitsPerOne_normal : (2 : ℚ) ^ 52 ≤ unitsPerOne := by
  have hnormal : 2 ^ 52 ≤ unitsPerOne := by decide +kernel
  generalize unitsPerOne = one at hnormal
  exact_mod_cast hnormal

theorem approximates_ofNat {n : ℕ} (hpos : 0 < n) (hn : n ≤ 10 ^ 17) :
    Approximates roundoff (n * unitsPerOne) (ofNat n) := by
  refine (rounds_ofNat hn).approximates (unitsPerOne_normal.trans ?_)
  exact le_mul_of_one_le_left cast_unitsPerOne_pos.le (by exact_mod_cast hpos)

theorem approximates_powerOfTen {k : ℕ} (hk : k ≤ largestPower) :
    Approximates roundoff (gridStep k) (powerOfTen k) := by
  refine (rounds_powerOfTen hk).approximates (unitsPerOne_normal.trans ?_)
  exact le_mul_of_one_le_left cast_unitsPerOne_pos.le (one_le_zpow₀ (by norm_num) (by omega))

/-- A power of ten up to 10²² is a binary64 number. -/
theorem exact_powerOfTen {k : ℕ} (hk : k ≤ 22) : Approximates 1 (gridStep k) (powerOfTen k) := by
  have hexact : ∀ k ≤ 22, Nat.pow 10 k * unitsPerOne = units (code (powerOfTen k)) := by
    decide +kernel
  obtain ⟨hfinite, hpositive, -⟩ := rounds_powerOfTen (hk.trans (by decide))
  refine ⟨hfinite, hpositive, ?_⟩
  rw [gridStep_natCast, hexact k hk]
  exact .refl _

theorem close_natCast {a b p d : ℕ} (hp : 0 < p) (hle : a * p ≤ b * (p + d))
    (hge : b * p ≤ a * (p + d)) : Close (1 + d / p) (a : ℚ) b := by
  have hpq : (0 : ℚ) < p := by exact_mod_cast hp
  have hfactor : 1 + (d : ℚ) / p = (p + d : ℕ) / p := by
    push_cast
    field_simp
  rw [hfactor]
  constructor <;> rw [mul_div_assoc', le_div_iff₀ hpq]
  · exact_mod_cast hle
  · exact_mod_cast hge

/-- The largest power of ten has an error of less than a tenth of what it could be. -/
theorem approximates_largestPower : Approximates (1 + (99 : ℕ) / (1000 * 2 ^ 53 : ℕ))
    (gridStep largestPower) (powerOfTen largestPower) := by
  obtain ⟨hfinite, hpositive, -⟩ := rounds_powerOfTen le_rfl
  have hvalue := gridStep_natCast largestPower
  refine ⟨hfinite, hpositive, ?_⟩
  generalize gridStep largestPower = g at hvalue ⊢
  subst hvalue
  exact close_natCast (by decide) (by decide +kernel) (by decide +kernel)

end Operands

/-! ## One operation -/

section Operation

variable {x y : Float} {r s q q' : ℚ}

theorem Approximates.mul (hx : Approximates r q x) (hy : Approximates s q' y) (hr : 0 ≤ r)
    (hs : 0 ≤ s) (hq' : 0 ≤ q') :
    Close (r * s) (q * q' / unitsPerOne) (units (code x) * units (code y) / unitsPerOne) := by
  refine Close.div_right cast_unitsPerOne_pos.le ?_
  have hsecond := hy.close.mul_right (Nat.cast_nonneg (α := ℚ) (units (code x)))
  rw [mul_comm q', mul_comm (units (code y) : ℚ)] at hsecond
  exact (hx.close.mul_right hq').trans hr hs hsecond

theorem Approximates.div (hx : Approximates r q x) (hy : Approximates s q' y) (hr : 0 ≤ r)
    (hs : 0 ≤ s) (hq' : 0 < q') (hpos : 0 < code y) :
    Close (r * s) (q * unitsPerOne / q') (units (code x) * unitsPerOne / units (code y)) := by
  have hunits : (0 : ℚ) < units (code y) := by simpa using cast_units_lt hpos
  have hfirst := (hx.close.mul_right cast_unitsPerOne_pos.le).div_right hq'.le
  refine hfirst.trans hr hs (hy.close.div_left hq' hunits ?_)
  exact mul_nonneg (Nat.cast_nonneg _) cast_unitsPerOne_pos.le

/-- A positive finite number at most two codes away from a given one. -/
structure Lands (c : ℕ) (x : Float) : Prop where
  finite : code x < infinityCode
  positive : isNegative x = false
  near : WithinTwo c (code x)

/-- Where there is room for two codes more, nothing overflows. -/
theorem lands_of_withinTwo {c n : ℕ} (hcode : code x = min n infinityCode)
    (hpositive : isNegative x = false) (hroom : c + 2 < infinityCode) (hnear : WithinTwo c n) :
    Lands c x := by
  have hfinite : n < infinityCode := by
    have := hnear.2
    omega
  rw [min_eq_left hfinite.le] at hcode
  exact ⟨by rwa [hcode], hpositive, by rwa [hcode]⟩

/-- The exact result is close to what is rounded. -/
theorem lands_of_close {c : ℕ} (hx : RoundsTo q' (code x)) (hpositive : isNegative x = false)
    (hc : Nearest q c) (hroom : c + 2 < infinityCode) (hr : 1 ≤ r)
    (hr' : (2 ^ 54 - 1) * (r - 1) < 4) (hclose : Close r q q') : Lands c x := by
  obtain ⟨n, hn, hcode⟩ := hx
  exact lands_of_withinTwo hcode hpositive hroom (hc.withinTwo hn hr hr' hclose)

theorem roundoff_pos : 0 < roundoff := by norm_num [roundoff]

theorem roundoff_twice :
    1 ≤ roundoff * roundoff ∧ (2 ^ 54 - 1) * (roundoff * roundoff - 1) < 4 := by
  norm_num [roundoff]

end Operation

/-! ## Significand and power -/

section Scaling

variable {significand c : ℕ} (hpos : 0 < significand) (hsignificand : significand ≤ 10 ^ 17)

theorem scaleUp?_of_finite {x : Float} {k : ℕ} (hk : k ≤ largestPower)
    (hfinite : code (x * powerOfTen k) < infinityCode) :
    scaleUp? x k = some (x * powerOfTen k) := by
  rw [scaleUp?, if_pos hk]
  exact if_pos ((isFinite_datum _).mpr hfinite)

theorem code_powerOfTen_pos {k : ℕ} (hk : k ≤ largestPower) : 0 < code (powerOfTen k) := by
  by_contra hzero
  have hclose := (approximates_powerOfTen hk).close.le
  rw [show code (powerOfTen k) = 0 by omega, units_zero, Nat.cast_zero, zero_mul] at hclose
  exact absurd (gridStep_pos k) (not_lt.mpr hclose)

theorem units_eq_mul_div (n : ℕ) (k : ℕ) :
    Decimal.units ⟨n, k⟩ = n * unitsPerOne * gridStep k / unitsPerOne := by
  rw [units_mk, mul_right_comm, mul_div_cancel_right₀ _ cast_unitsPerOne_pos.ne']

theorem gridStep_neg_mul (k : ℕ) : gridStep (-k) * gridStep k = unitsPerOne * unitsPerOne := by
  have hpow : (10 : ℚ) ^ k ≠ 0 := pow_ne_zero k (by norm_num)
  rw [gridStep, gridStep, zpow_neg, zpow_natCast, mul_mul_mul_comm, inv_mul_cancel₀ hpow, one_mul]

theorem units_eq_div (n : ℕ) (k : ℕ) :
    Decimal.units ⟨n, -k⟩ = n * unitsPerOne * unitsPerOne / gridStep k := by
  rw [units_mk, eq_div_iff (gridStep_pos k).ne', mul_assoc, mul_assoc, gridStep_neg_mul]

include hpos hsignificand

theorem lands_scaleUp? {k : ℕ} (hk : k ≤ largestPower)
    (hc : Nearest (Decimal.units ⟨significand, k⟩) c) (hroom : c + 2 < infinityCode) :
    ∃ x, scaleUp? (ofNat significand) k = some x ∧ Lands c x := by
  have hx := approximates_ofNat hpos hsignificand
  have hy := approximates_powerOfTen hk
  obtain ⟨hrounds, hsign⟩ := roundsTo_mul hx.finite hy.finite
  rw [hx.positive, hy.positive] at hsign
  rw [units_eq_mul_div] at hc
  have hlands := lands_of_close hrounds hsign hc hroom roundoff_twice.1 roundoff_twice.2
    (hx.mul hy roundoff_pos.le roundoff_pos.le (gridStep_pos k).le)
  exact ⟨_, scaleUp?_of_finite hk hlands.finite, hlands⟩

theorem lands_div {k : ℕ} (hk : k ≤ largestPower)
    (hc : Nearest (Decimal.units ⟨significand, -k⟩) c) (hroom : c + 2 < infinityCode) :
    Lands c (ofNat significand / powerOfTen k) := by
  have hx := approximates_ofNat hpos hsignificand
  have hy := approximates_powerOfTen hk
  have hcode := code_powerOfTen_pos hk
  obtain ⟨hrounds, hsign⟩ := roundsTo_div hx.finite hy.finite hcode
  rw [hx.positive, hy.positive] at hsign
  rw [units_eq_div] at hc
  exact lands_of_close hrounds hsign hc hroom roundoff_twice.1 roundoff_twice.2
    (hx.div hy roundoff_pos.le roundoff_pos.le (gridStep_pos k) hcode)

end Scaling

/-! ## Two divisions

Below 10⁻³⁰⁸ the reader divides by 10³⁰⁸ first. Three roundings come together, of the significand,
of the power and of the quotient, and a fourth of the last quotient. The errors of significand and
quotient cannot both be as large as they can be by themselves: the one is smaller where the quotient
is just below a power of two, the other elsewhere.
-/

/-- The significand of the largest power of ten. -/
def largestPowerSignificand : ℕ := 5010420900022432

theorem pow_mul_unitsPerOne (k : ℕ) : (2 : ℚ) ^ k * unitsPerOne = 2 ^ (k + 1074) := by
  rw [cast_unitsPerOne, pow_add]

/-- What dividing by the largest power amounts to, `p` being a power of two. -/
theorem div_largestPower : ∃ p : ℚ, 0 < p ∧ (unitsPerOne : ℚ) = 2 ^ 103 * p ∧ ∀ a : ℚ,
    a * unitsPerOne / units (code (powerOfTen largestPower)) =
      a / (largestPowerSignificand * p) := by
  have hone : unitsPerOne = 2 ^ 103 * Nat.pow 2 971 := by decide +kernel
  have hpower : units (code (powerOfTen largestPower)) =
      largestPowerSignificand * Nat.pow 2 971 * unitsPerOne := by decide +kernel
  have hpos : 0 < Nat.pow 2 971 := by decide +kernel
  have honepos := cast_unitsPerOne_pos
  generalize Nat.pow 2 971 = p at hone hpower hpos
  generalize units (code (powerOfTen largestPower)) = b at hpower
  generalize unitsPerOne = one at hone hpower honepos
  refine ⟨p, by exact_mod_cast hpos, by exact_mod_cast hone, fun a => ?_⟩
  rw [hpower, Nat.cast_mul, mul_div_mul_right _ _ honepos.ne', Nat.cast_mul]

section TwoDivisions

variable {significand n : ℕ}

/-- Numbers of up to 53 bits are exact. -/
theorem units_ofNat (hpos : 0 < significand) (h : significand < 2 ^ 53) :
    (units (code (ofNat significand)) : ℚ) = significand * unitsPerOne := by
  have hrounds := rounds_ofNat (h.le.trans (by decide))
  have hlog : significand.log2 ≤ 52 := by
    have := (Nat.log2_lt hpos.ne').mpr h
    omega
  obtain ⟨l, hl⟩ := Nat.exists_eq_add_of_le hlog
  have hhigh : significand * 2 ^ l ≤ 2 ^ 53 := by
    calc significand * 2 ^ l ≤ 2 ^ (significand.log2 + 1) * 2 ^ l :=
          Nat.mul_le_mul_right _ Nat.lt_log2_self.le
      _ = 2 ^ 53 := by rw [← pow_add]; congr 1; omega
  have hlow : 2 ^ 52 ≤ significand * 2 ^ l := by
    calc 2 ^ 52 = 2 ^ significand.log2 * 2 ^ l := by rw [← pow_add, ← hl]
      _ ≤ significand * 2 ^ l := Nat.mul_le_mul_right _ (Nat.log2_self_le hpos.ne')
  obtain ⟨e, he⟩ := Nat.exists_eq_add_of_le (show l ≤ 1074 by omega)
  have hexact : (units (e * 2 ^ 52 + significand * 2 ^ l) : ℚ) = significand * unitsPerOne := by
    rw [units_add hhigh (.inr hlow), cast_unitsPerOne, he, pow_add]
    push_cast
    ring
  have hnearest := nearest_units (e * 2 ^ 52 + significand * 2 ^ l)
  rw [hexact] at hnearest
  rw [hrounds.nearest.eq hnearest, hexact]

variable (hn : Nearest (units (code (ofNat significand)) * unitsPerOne /
  units (code (powerOfTen largestPower))) n)

include hn

/-- Below 2⁵³ only the power and the quotient are rounded. -/
theorem close_quotient_of_exact (h3 : 3 ≤ significand) (h : significand < 2 ^ 53) :
    Close roundoff (units (code (ofNat significand)) * unitsPerOne /
      units (code (powerOfTen largestPower))) (units n) := by
  obtain ⟨p, hp, hone, hdiv⟩ := div_largestPower
  refine hn.close ?_
  have hq : (3 : ℚ) ≤ significand := by exact_mod_cast h3
  rw [hdiv, units_ofNat (by omega) h, hone, ← mul_assoc, mul_div_mul_right _ _ hp.ne',
    largestPowerSignificand, le_div_iff₀ (by norm_num)]
  norm_num
  linarith

omit hn in
/-- The significand of the largest power, shifted to the size of a significand. -/
theorem units_threshold (f : ℕ) : (units ((f + 1075) * 2 ^ 52 + largestPowerSignificand) : ℚ) =
    largestPowerSignificand * 2 ^ (f + 1) * unitsPerOne := by
  rw [units_add (by decide) (.inr (by decide)), mul_assoc, pow_mul_unitsPerOne]
  push_cast
  rfl

/-- From 2⁵³ on the error of the significand is smaller if it is at least that of the largest
power, -/
theorem close_quotient_of_ge {f : ℕ} (hn17 : significand ≤ 10 ^ 17)
    (hlow : largestPowerSignificand * 2 ^ (f + 1) ≤ significand)
    (hhigh : significand < 2 ^ (f + 54)) :
    Close (1 + 1 / (2 * largestPowerSignificand)) (significand * unitsPerOne)
        (units (code (ofNat significand))) ∧
      Close roundoff (units (code (ofNat significand)) * unitsPerOne /
        units (code (powerOfTen largestPower))) (units n) := by
  have hrounds := rounds_ofNat hn17
  have hthreshold := units_threshold f
  have hlow' : (largestPowerSignificand * 2 ^ (f + 1) : ℚ) ≤ significand := by exact_mod_cast hlow
  have hge : (units ((f + 1075) * 2 ^ 52 + largestPowerSignificand) : ℚ) ≤
      significand * unitsPerOne := by
    rw [hthreshold]
    exact mul_le_mul_of_nonneg_right hlow' cast_unitsPerOne_pos.le
  constructor
  · have hle : (significand * unitsPerOne : ℚ) ≤ 2 ^ (53 + (f + 1075)) := by
      rw [show 53 + (f + 1075) = f + 54 + 1074 by omega, ← pow_mul_unitsPerOne]
      exact mul_le_mul_of_nonneg_right (by exact_mod_cast hhigh.le) cast_unitsPerOne_pos.le
    have hclose := hrounds.nearest.close_of_le (Nat.add_pos_right _ (by decide)) hge hle
    have hfactor : (2 : ℚ) ^ (f + 1075) / (2 * (largestPowerSignificand * 2 ^ (f + 1) *
        unitsPerOne)) = 1 / (2 * largestPowerSignificand) := by
      have hone := cast_unitsPerOne_pos
      rw [show f + 1075 = f + 1 + 1074 by omega, ← pow_mul_unitsPerOne]
      generalize (unitsPerOne : ℚ) = one at hone
      have hM : (0 : ℚ) < largestPowerSignificand := by norm_num [largestPowerSignificand]
      generalize (largestPowerSignificand : ℚ) = M at hM
      field_simp
    rwa [hthreshold, hfactor] at hclose
  · refine hn.close ?_
    obtain ⟨p, hp, hone, hdiv⟩ := div_largestPower
    have hcode := cast_units_le ((nearest_units _).le hrounds.nearest hge)
    have hM : (0 : ℚ) < largestPowerSignificand := by norm_num [largestPowerSignificand]
    have hpow : (2 : ℚ) ^ 52 ≤ 2 ^ (f + 1) * 2 ^ 103 := by
      rw [← pow_add]
      exact pow_le_pow_right₀ one_le_two (by omega)
    rw [hthreshold, hone] at hcode
    rw [hdiv]
    generalize (largestPowerSignificand : ℚ) = M at hM hcode
    rw [le_div_iff₀ (mul_pos hM hp)]
    calc (2 : ℚ) ^ 52 * (M * p) ≤ 2 ^ (f + 1) * 2 ^ 103 * (M * p) :=
          mul_le_mul_of_nonneg_right hpow (mul_pos hM hp).le
      _ = M * 2 ^ (f + 1) * (2 ^ 103 * p) := by ring
      _ ≤ units (code (ofNat significand)) := hcode

/-- and the error of the quotient otherwise. -/
theorem close_quotient_of_lt {f : ℕ} (hn17 : significand ≤ 10 ^ 17)
    (hlow : 2 ^ (f + 53) ≤ significand)
    (hhigh : significand < largestPowerSignificand * 2 ^ (f + 1)) :
    Close (1 + 1 / (7 * 2 ^ 51)) (units (code (ofNat significand)) * unitsPerOne /
      units (code (powerOfTen largestPower))) (units n) := by
  have hrounds := rounds_ofNat hn17
  obtain ⟨p, hp, hone, hdiv⟩ := div_largestPower
  have hhigh' : (significand : ℚ) ≤ largestPowerSignificand * 2 ^ (f + 1) := by
    exact_mod_cast hhigh.le
  have hlow' : (2 : ℚ) ^ (f + 53) ≤ significand := by exact_mod_cast hlow
  have hbottom : (units ((f + 1075) * 2 ^ 52 + 2 ^ 52) : ℚ) = 2 ^ (f + 53) * unitsPerOne := by
    rw [units_add (by decide) (.inr le_rfl), pow_mul_unitsPerOne,
      show f + 53 + 1074 = 52 + (f + 1075) by omega, pow_add 2 52, Nat.cast_mul, Nat.cast_pow,
      Nat.cast_pow, Nat.cast_ofNat]
  have hge := cast_units_le ((nearest_units ((f + 1075) * 2 ^ 52 + 2 ^ 52)).le hrounds.nearest (by
    rw [hbottom]
    exact mul_le_mul_of_nonneg_right hlow' cast_unitsPerOne_pos.le))
  have hle := cast_units_le (hrounds.nearest.le
    (nearest_units ((f + 1075) * 2 ^ 52 + largestPowerSignificand)) (by
      rw [units_threshold]
      exact mul_le_mul_of_nonneg_right hhigh' cast_unitsPerOne_pos.le))
  rw [hbottom, hone] at hge
  rw [units_threshold, hone] at hle
  rw [hdiv] at hn ⊢
  have hM : (0 : ℚ) < largestPowerSignificand ∧ (7 * largestPowerSignificand : ℚ) ≤ 2 ^ 55 := by
    norm_num [largestPowerSignificand]
  generalize (largestPowerSignificand : ℚ) = M at hM hle hn ⊢
  generalize (units (code (ofNat significand)) : ℚ) = a at hge hle hn ⊢
  have hMp : 0 < M * p := mul_pos hM.1 hp
  have hb : (units ((f + 51) * 2 ^ 52 + 7 * 2 ^ 50) : ℚ) = 7 * 2 ^ 50 * 2 ^ (f + 51) := by
    rw [units_add (by decide) (.inr (by decide))]
    push_cast
    norm_num
  have hfrom : (units ((f + 51) * 2 ^ 52 + 7 * 2 ^ 50) : ℚ) ≤ a / (M * p) := by
    rw [hb, le_div_iff₀ hMp]
    calc 7 * 2 ^ 50 * 2 ^ (f + 51) * (M * p) = 7 * M * (2 ^ 50 * 2 ^ (f + 51) * p) := by ring
      _ ≤ 2 ^ 55 * (2 ^ 50 * 2 ^ (f + 51) * p) :=
        mul_le_mul_of_nonneg_right hM.2 (by positivity)
      _ = 2 ^ (f + 53) * (2 ^ 103 * p) := by ring
      _ ≤ a := hge
  have hto : a / (M * p) ≤ 2 ^ (53 + (f + 51)) := by
    rw [div_le_iff₀ hMp]
    calc a ≤ M * 2 ^ (f + 1) * (2 ^ 103 * p) := hle
      _ = 2 ^ (53 + (f + 51)) * (M * p) := by ring
  have hclose := hn.close_of_le (Nat.add_pos_right _ (by decide)) hfrom hto
  have hfactor : (2 : ℚ) ^ (f + 51) / (2 * (7 * 2 ^ 50 * 2 ^ (f + 51))) = 1 / (7 * 2 ^ 51) := by
    field_simp
  rwa [hb, hfactor] at hclose

/-- The significand divided by the largest power is close enough to the exact quotient. -/
theorem exists_close_quotient (h3 : 3 ≤ significand) (hn17 : significand ≤ 10 ^ 17) :
    ∃ r, 1 ≤ r ∧ (2 ^ 54 - 1) * (r - 1) < 4 ∧
      Close r (significand * unitsPerOne * unitsPerOne / gridStep largestPower) (units n) := by
  have hx := rounds_ofNat hn17
  have hy := approximates_largestPower
  have hcode := code_powerOfTen_pos le_rfl
  have hchain : ∀ {r s : ℚ}, 0 ≤ r → 0 ≤ s →
      Close r (significand * unitsPerOne) (units (code (ofNat significand))) →
      Close s (units (code (ofNat significand)) * unitsPerOne /
        units (code (powerOfTen largestPower))) (units n) →
      Close (r * (1 + (99 : ℕ) / (1000 * 2 ^ 53 : ℕ)) * s)
        (significand * unitsPerOne * unitsPerOne / gridStep largestPower) (units n) := by
    intro r s hr hs hfirst hsecond
    have happrox : Approximates r (significand * unitsPerOne) (ofNat significand) :=
      ⟨hx.finite, hx.positive, hfirst⟩
    exact (happrox.div hy hr (by positivity) (gridStep_pos _) hcode).trans (by positivity) hs
      hsecond
  -- Three bounds on the product of the errors: no error of the significand, or one of the other two
  -- small, by the side of the threshold on which the significand is.
  by_cases hsmall : significand < 2 ^ 53
  · refine ⟨_, ?_, ?_, hchain zero_le_one roundoff_pos.le ?_
      (close_quotient_of_exact hn h3 hsmall)⟩
    · norm_num [roundoff]
    · norm_num [roundoff]
    · rw [units_ofNat (by omega) hsmall]
      exact .refl _
  · have hlog : 53 ≤ significand.log2 := (Nat.le_log2 (by omega)).mpr (by omega)
    obtain ⟨f, hf⟩ := Nat.exists_eq_add_of_le' hlog
    have hlow : 2 ^ (f + 53) ≤ significand := hf ▸ Nat.log2_self_le (by omega)
    have hhigh : significand < 2 ^ (f + 54) := by
      have := Nat.lt_log2_self (n := significand)
      rwa [hf] at this
    by_cases hside : largestPowerSignificand * 2 ^ (f + 1) ≤ significand
    · obtain ⟨hfirst, hsecond⟩ := close_quotient_of_ge hn hn17 hside hhigh
      have hr : (0 : ℚ) ≤ 1 + 1 / (2 * largestPowerSignificand) := by
        norm_num [largestPowerSignificand]
      refine ⟨_, ?_, ?_, hchain hr roundoff_pos.le hfirst hsecond⟩
      · norm_num [roundoff, largestPowerSignificand]
      · norm_num [roundoff, largestPowerSignificand]
    · have hsecond := close_quotient_of_lt hn hn17 hlow (not_le.mp hside)
      refine ⟨_, ?_, ?_, hchain roundoff_pos.le (by positivity)
        (approximates_ofNat (by omega) hn17).close hsecond⟩
      · norm_num [roundoff]
      · norm_num [roundoff]

end TwoDivisions

section Quotient

variable {significand : ℕ} (hn17 : significand ≤ 10 ^ 17)

include hn17

theorem rounds_div_largestPower :
    Rounds (units (code (ofNat significand)) * unitsPerOne /
      units (code (powerOfTen largestPower))) (ofNat significand / powerOfTen largestPower) := by
  have hx := rounds_ofNat hn17
  have hy := rounds_powerOfTen le_rfl
  have hcode := code_powerOfTen_pos le_rfl
  obtain ⟨⟨n, hn, hmin⟩, hsign⟩ := roundsTo_div hx.finite hy.finite hcode
  rw [hx.positive, hy.positive] at hsign
  have hle : n ≤ code (ofNat significand) := by
    have hpower : unitsPerOne ≤ units (code (powerOfTen largestPower)) := by decide +kernel
    refine hn.le (nearest_units _) ?_
    have hpowerq := Nat.cast_le (α := ℚ).mpr hpower
    rw [div_le_iff₀ (cast_unitsPerOne_pos.trans_le hpowerq)]
    exact mul_le_mul_of_nonneg_left hpowerq (Nat.cast_nonneg _)
  have hfinite : n < infinityCode := hle.trans_lt hx.finite
  rw [min_eq_left hfinite.le] at hmin
  exact ⟨by rwa [hmin], hsign, by rwa [hmin]⟩

omit hn17 in
theorem units_eq_div_div (k : ℕ) : Decimal.units ⟨significand, -(largestPower + k : ℕ)⟩ =
    significand * unitsPerOne * unitsPerOne / gridStep largestPower * unitsPerOne / gridStep k := by
  have hstep : gridStep (largestPower + k : ℕ) = 10 ^ k * gridStep largestPower := by
    rw [Nat.cast_add, gridStep_add]
  have hk : gridStep k = 10 ^ k * unitsPerOne := by rw [gridStep, zpow_natCast]
  have hlargest := gridStep_pos largestPower
  have hone := cast_unitsPerOne_pos
  rw [units_eq_div, hstep, hk]
  generalize gridStep largestPower = g at hlargest
  generalize (unitsPerOne : ℚ) = one at hone
  field_simp

/-- One and two times 10⁻³⁰⁸ are subnormal, and the quotient is rounded to a whole unit. -/
theorem quotient_of_le_two (hpos : 0 < significand) (h2 : significand ≤ 2) :
    (significand * unitsPerOne * unitsPerOne / gridStep largestPower : ℚ) <
        units (code (ofNat significand / powerOfTen largestPower)) + 1 ∧
      (units (code (ofNat significand / powerOfTen largestPower)) : ℚ) <
        significand * unitsPerOne * unitsPerOne / gridStep largestPower + 1 := by
  have hq := rounds_div_largestPower hn17
  have hsmall : significand < 2 ^ 53 := h2.trans_lt (by decide)
  have hx : Approximates 1 (significand * unitsPerOne) (ofNat significand) :=
    ⟨(rounds_ofNat hn17).finite, (rounds_ofNat hn17).positive, by
      rw [units_ofNat hpos hsmall]
      exact .refl _⟩
  have hclose := hx.div approximates_largestPower zero_le_one (by positivity) (gridStep_pos _)
    (code_powerOfTen_pos le_rfl)
  obtain ⟨p, hp, hone, hdiv⟩ := div_largestPower
  have hle : units (code (ofNat significand)) * unitsPerOne /
      units (code (powerOfTen largestPower)) ≤ (2 : ℚ) ^ (53 + 0) := by
    have hsignificand : (significand : ℚ) ≤ 2 := by exact_mod_cast h2
    rw [hdiv, units_ofNat hpos hsmall, hone, ← mul_assoc, mul_div_mul_right _ _ hp.ne',
      largestPowerSignificand, div_le_iff₀ (by norm_num)]
    norm_num
    linarith
  have herror := hq.nearest.error hle
  generalize (units (code (ofNat significand)) * unitsPerOne /
    units (code (powerOfTen largestPower)) : ℚ) = q at hle herror hclose
  generalize (significand * unitsPerOne * unitsPerOne / gridStep largestPower : ℚ) = t at hclose ⊢
  have hup := hclose.le
  have hdown := hclose.ge
  norm_num at hle herror hup hdown
  constructor
  · linarith
  · linarith

theorem lands_div_div {c k : ℕ} (hpos : 0 < significand) (hk : k ≤ 22)
    (hc : Nearest (Decimal.units ⟨significand, -(largestPower + k : ℕ)⟩) c)
    (hroom : c + 2 < infinityCode) :
    Lands c (ofNat significand / powerOfTen largestPower / powerOfTen k) := by
  have hq := rounds_div_largestPower hn17
  have hy := exact_powerOfTen hk
  have hcode := code_powerOfTen_pos (hk.trans (by decide))
  obtain ⟨hrounds, hsign⟩ := roundsTo_div hq.finite hy.finite hcode
  rw [hq.positive, hy.positive] at hsign
  rw [← hy.close.eq] at hrounds
  rw [units_eq_div_div] at hc
  have hone := cast_unitsPerOne_pos
  -- The quotients of one and two are subnormal, so that only their absolute errors are small.
  by_cases h3 : 3 ≤ significand
  · obtain ⟨r, hr, hr', hclose⟩ := exists_close_quotient hq.nearest h3 hn17
    exact lands_of_close hrounds hsign hc hroom hr hr'
      ((hclose.mul_right hone.le).div_right (gridStep_pos k).le)
  · obtain ⟨hlt, hgt⟩ := quotient_of_le_two hn17 hpos (by omega)
    have hstep : (unitsPerOne : ℚ) ≤ gridStep k :=
      le_mul_of_one_le_left hone.le (one_le_zpow₀ (by norm_num) (by omega))
    have hratio : unitsPerOne / gridStep k ≤ 1 := (div_le_one (gridStep_pos k)).mpr hstep
    obtain ⟨n, hn, hmin⟩ := hrounds
    have hscale : ∀ u v : ℚ, u < v + 1 →
        u * unitsPerOne / gridStep k < v * unitsPerOne / gridStep k + 2 := by
      intro u v huv
      have hless := mul_lt_mul_of_pos_right huv (div_pos hone (gridStep_pos k))
      rw [mul_div_assoc, mul_div_assoc]
      linarith
    exact lands_of_withinTwo hmin hsign hroom
      (hc.withinTwo_of_units hn (hscale _ _ hlt) (hscale _ _ hgt))

end Quotient

/-! ## Every power that is read -/

section Scale

variable {significand c : ℕ} {k : ℤ} (hpos : 0 < significand) (hn17 : significand ≤ 10 ^ 17)

theorem scaleDown_of_le (x : Float) {k : ℕ} (hk : 0 < k) (hk' : k ≤ largestPower) :
    scaleDown x k = x / powerOfTen k := by
  have hsteps : (k - 1) / largestPower = 0 := Nat.div_eq_of_lt (by omega)
  simp only [scaleDown, hsteps, zero_mul, Nat.sub_zero, divideRepeatedly]

theorem scaleDown_of_gt {x : Float} {k : ℕ} (hx : 0 < code x) (hk : 0 < k)
    (hk' : k ≤ largestPower) :
    scaleDown x (largestPower + k) = x / powerOfTen largestPower / powerOfTen k := by
  have hsteps : (largestPower + k - 1) / largestPower = 1 := by
    rw [Nat.div_eq_iff (by decide)]
    omega
  have hleft : largestPower + k - 1 * largestPower = k := by omega
  have hzero : ¬isZero x = true := by
    rw [isZero, decide_eq_true_eq]
    exact hx.ne'
  simp only [scaleDown, hsteps, hleft, divideRepeatedly]
  rw [if_neg hzero]

include hpos hn17

/-- What is read is finite and at most two codes away from the number nearest to the numeral. -/
theorem lands_scale? (hlow : -324 ≤ k) (hhigh : k ≤ 308)
    (hc : Nearest (Decimal.units ⟨significand, k⟩) c) (hroom : c + 2 < infinityCode) :
    ∃ x, scale? significand k = some x ∧ Lands c x := by
  cases k with
  | ofNat k => exact lands_scaleUp? hpos hn17 (Int.ofNat_le.mp hhigh) hc hroom
  | negSucc k =>
    refine ⟨_, rfl, ?_⟩
    by_cases hk : k + 1 ≤ largestPower
    · rw [scaleDown_of_le _ k.succ_pos hk]
      exact lands_div hpos hn17 hk hc hroom
    · obtain ⟨j, hj⟩ := Nat.exists_eq_add_of_le (not_le.mp hk).le
      have hlargest : largestPower = 308 := rfl
      have hcode : 0 < code (ofNat significand) := by
        by_contra hzero
        have hclose := (approximates_ofNat hpos hn17).close.le
        rw [show code (ofNat significand) = 0 by omega, units_zero, Nat.cast_zero, zero_mul]
          at hclose
        exact absurd (mul_pos (Nat.cast_pos.mpr hpos) cast_unitsPerOne_pos) (not_lt.mpr hclose)
      rw [show Int.negSucc k = -(largestPower + j : ℕ) by omega] at hc
      rw [hj, scaleDown_of_gt hcode (by omega) (by omega)]
      exact lands_div_div hn17 hpos (by omega) hc hroom

omit hpos in
/-- Where significand and power are exact, what is read is the number nearest to the numeral. -/
theorem scale?_exact (hlow : -22 ≤ k) (hhigh : k ≤ 22)
    (hexact : units (code (ofNat significand)) = significand * unitsPerOne)
    (hc : Nearest (Decimal.units ⟨significand, k⟩) c) (hfinite : c < infinityCode) :
    scale? significand k = some (ofCode false c) := by
  have hx : Approximates 1 (significand * unitsPerOne) (ofNat significand) :=
    ⟨(rounds_ofNat hn17).finite, (rounds_ofNat hn17).positive, by
      rw [hexact, Nat.cast_mul]
      exact .refl _⟩
  have hrounds := hc.roundsTo hfinite.le
  cases k with
  | ofNat k =>
    have hk : k ≤ 22 := Int.ofNat_le.mp hhigh
    have hy := exact_powerOfTen hk
    obtain ⟨hproduct, hsign⟩ := roundsTo_mul hx.finite hy.finite
    rw [hx.positive, hy.positive] at hsign
    rw [← hx.close.eq, ← hy.close.eq, ← units_eq_mul_div] at hproduct
    have hcode := hproduct.eq hrounds
    have hup := scaleUp?_of_finite (hk.trans (by decide)) (by rwa [hcode])
    rw [← ofCode_code (hcode.trans_le hfinite.le), hcode, hsign] at hup
    exact hup
  | negSucc k =>
    have hk : k + 1 ≤ 22 := by omega
    have hy := exact_powerOfTen hk
    have hpower : k + 1 ≤ largestPower := hk.trans (by decide)
    obtain ⟨hquotient, hsign⟩ := roundsTo_div hx.finite hy.finite (code_powerOfTen_pos hpower)
    rw [hx.positive, hy.positive] at hsign
    rw [← hx.close.eq, ← hy.close.eq, ← units_eq_div] at hquotient
    have hcode := hquotient.eq hrounds
    have hdown := ofCode_code (hcode.trans_le hfinite.le)
    rw [hcode, hsign] at hdown
    change some (scaleDown (ofNat significand) (k + 1)) = _
    rw [scaleDown_of_le _ k.succ_pos hpower, ← hdown]
    rfl

end Scale

end ResumableFormulas.Numeral
