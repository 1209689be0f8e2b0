import Mathlib.Algebra.Order.Field.Power
import ResumableFormulas.Number.Shortest
import ResumableFormulas.Proofs.Number.Arithmetic

/-! # The shortest decimal rounds back

The search for the shortest decimal always ends with one that the number is nearest to. A grid has
such a decimal as soon as its distance is less than half the way from the lower neighbour to the
upper one; with 17 digits it is, and on the multiples of 10⁻³²⁴ it is for every number.
-/
namespace ResumableFormulas.Decimal
open Binary64

/-- The value of a decimal in units. -/
def units (d : Decimal) : ℚ := d.significand * 10 ^ d.exponent * unitsPerOne

theorem powerOfTen_eq (k : ℤ) : ((powerOfTen k).1 : ℚ) / (powerOfTen k).2 = 10 ^ k ∧
    0 < (powerOfTen k).1 ∧ 0 < (powerOfTen k).2 := by
  cases k with
  | ofNat k =>
    refine ⟨?_, Nat.pow_pos (by decide), Nat.one_pos⟩
    simp [powerOfTen]
  | negSucc k =>
    refine ⟨?_, Nat.one_pos, Nat.pow_pos (by decide)⟩
    simp [powerOfTen]

/-- The distance of the grid of `10 ^ k` in units. -/
def gridStep (k : ℤ) : ℚ := 10 ^ k * unitsPerOne

theorem gridStep_pos (k : ℤ) : 0 < gridStep k :=
  mul_pos (zpow_pos (by norm_num) k) cast_unitsPerOne_pos

theorem units_mk (d : ℕ) (k : ℤ) : units ⟨d, k⟩ = d * gridStep k := by
  rw [units, gridStep, mul_assoc]

theorem nearest_of_lt {q : ℚ} {c : ℕ}
    (hlow : (Binary64.units (c - 1) + Binary64.units c : ℚ) < 2 * q)
    (hhigh : 2 * q < Binary64.units c + Binary64.units (c + 1)) : Nearest q c :=
  ⟨hlow.le, hhigh.le, fun heq => absurd heq hlow.ne, fun heq => absurd heq hhigh.ne⟩

theorem nearest_iff {q : ℚ} {c : ℕ} : Nearest q c ↔
    if c % 2 = 0 then
      (Binary64.units (c - 1) + Binary64.units c : ℚ) ≤ 2 * q ∧
        2 * q ≤ Binary64.units c + Binary64.units (c + 1)
    else
      (Binary64.units (c - 1) + Binary64.units c : ℚ) < 2 * q ∧
        2 * q < Binary64.units c + Binary64.units (c + 1) := by
  by_cases heven : c % 2 = 0
  · rw [if_pos heven]
    exact ⟨fun h => ⟨h.lower, h.upper⟩, fun h => ⟨h.1, h.2, fun _ => heven, fun _ => heven⟩⟩
  · rw [if_neg heven]
    constructor
    · intro h
      exact ⟨h.lower.lt_of_ne fun heq => heven (h.even_of_lower heq),
        h.upper.lt_of_ne fun heq => heven (h.even_of_upper heq)⟩
    · exact fun h => nearest_of_lt h.1 h.2

theorem roundsTo_iff (c d : ℕ) (k : ℤ) : roundsTo c d k = true ↔ Nearest (units ⟨d, k⟩) c := by
  obtain ⟨hpower, -, hden⟩ := powerOfTen_eq k
  generalize hnum : (powerOfTen k).1 = num at hpower
  generalize hden' : (powerOfTen k).2 = den at hpower hden
  have hdenq : (0 : ℚ) < den := by exact_mod_cast hden
  have hpoint : ((2 * d * num * unitsPerOne : ℕ) : ℚ) = 2 * units ⟨d, k⟩ * den := by
    rw [units, ← hpower]
    generalize unitsPerOne = one
    push_cast
    field_simp
  have hlow : ∀ a b : ℕ, (a + b) * den ≤ 2 * d * num * unitsPerOne ↔
      (a + b : ℚ) ≤ 2 * units ⟨d, k⟩ := by
    intro a b
    rw [← mul_le_mul_iff_left₀ hdenq, ← hpoint]
    exact_mod_cast Iff.rfl
  have hhigh : ∀ a b : ℕ, 2 * d * num * unitsPerOne ≤ (a + b) * den ↔
      2 * units ⟨d, k⟩ ≤ (a + b : ℚ) := by
    intro a b
    rw [← mul_le_mul_iff_left₀ hdenq, ← hpoint]
    exact_mod_cast Iff.rfl
  rw [nearest_iff, roundsTo]
  simp only [hnum, hden']
  split
  · rw [decide_eq_true_eq, hlow, hhigh]
  · rw [decide_eq_true_eq, ← not_le, ← not_le, hlow, hhigh, not_le, not_le]

/-! ## The search on one grid -/

section Grid

variable {c : ℕ} {k : ℤ}

theorem gridFloor_bounds (c : ℕ) (k : ℤ) :
    (gridFloor c k : ℚ) * gridStep k ≤ Binary64.units c ∧
      (Binary64.units c : ℚ) < (gridFloor c k + 1) * gridStep k := by
  obtain ⟨hpower, hnum, hden⟩ := powerOfTen_eq k
  have hone := unitsPerOne_pos
  have hdef : gridFloor c k =
    Binary64.units c * (powerOfTen k).2 / ((powerOfTen k).1 * unitsPerOne) := rfl
  rw [gridStep, hdef, ← hpower]
  generalize (powerOfTen k).1 = num at hnum
  generalize (powerOfTen k).2 = den at hden
  generalize unitsPerOne = one at hone
  have hdenq : (0 : ℚ) < den := by exact_mod_cast hden
  have hfloor := Nat.div_mul_le_self (Binary64.units c * den) (num * one)
  have hceil := Nat.lt_div_mul_add (a := Binary64.units c * den) (Nat.mul_pos hnum hone)
  generalize Binary64.units c * den / (num * one) = d at hfloor hceil
  rw [div_mul_eq_mul_div, mul_div_assoc', mul_div_assoc', div_le_iff₀ hdenq, lt_div_iff₀ hdenq]
  constructor
  · exact_mod_cast hfloor
  · rw [add_mul, one_mul]
    exact_mod_cast hceil

/-- What is found on a grid rounds to the number, and is one of its two neighbours there. -/
theorem of_onGrid {tie : Tie} {d : Decimal} (h : onGrid tie c k = some d) :
    Nearest d.units c ∧ d.exponent = k ∧ d.significand ≤ gridFloor c k + 1 := by
  have hfloor := roundsTo_iff c (gridFloor c k) k
  have hnext := roundsTo_iff c (gridFloor c k + 1) k
  simp only [onGrid] at h
  split at h
  case h_1 => contradiction
  case h_2 hd _ =>
    obtain rfl := Option.some.inj h
    exact ⟨hfloor.mp hd, rfl, Nat.le_succ _⟩
  case h_3 _ hd =>
    obtain rfl := Option.some.inj h
    exact ⟨hnext.mp hd, rfl, le_rfl⟩
  case h_4 hd hd' =>
    obtain rfl := Option.some.inj h
    split
    · exact ⟨hnext.mp hd', rfl, le_rfl⟩
    · exact ⟨hfloor.mp hd, rfl, Nat.le_succ _⟩

/-- A grid with less than half the distance between the neighbours has a decimal for the number. -/
theorem onGrid_isSome (tie : Tie) (hc : 0 < c)
    (hfine : 2 * gridStep k < Binary64.units (c + 1) - Binary64.units (c - 1)) :
    (onGrid tie c k).isSome := by
  have hfloor := roundsTo_iff c (gridFloor c k) k
  have hnext := roundsTo_iff c (gridFloor c k + 1) k
  obtain ⟨hle, hlt⟩ := gridFloor_bounds c k
  have hbelow := cast_units_lt (show c - 1 < c by omega)
  have habove := cast_units_lt (Nat.lt_succ_self c)
  simp only [onGrid]
  split
  case h_1 hd hd' =>
    rw [hd, units_mk] at hfloor
    rw [hd', units_mk, Nat.cast_add, Nat.cast_one] at hnext
    have hmissed : 2 * ((gridFloor c k : ℚ) * gridStep k) ≤
        Binary64.units (c - 1) + Binary64.units c := by
      by_contra hlow
      exact Bool.false_ne_true (hfloor.mpr (nearest_of_lt (not_le.mp hlow) (by linarith)))
    have hpassed : (Binary64.units c + Binary64.units (c + 1) : ℚ) ≤
        2 * ((gridFloor c k + 1) * gridStep k) := by
      by_contra hhigh
      exact Bool.false_ne_true (hnext.mpr (nearest_of_lt (by linarith) (not_le.mp hhigh)))
    linarith
  all_goals rfl

end Grid

/-! ## The search over all grids -/

/-- A search over a range that succeeds does so at a first index. -/
theorem exists_first {α : Type} {f : ℕ → Option α} {m : ℕ} {a : α}
    (h : (List.range m).findSome? f = some a) : ∃ n < m, f n = some a ∧ ∀ i < n, f i = none := by
  induction m with
  | zero => contradiction
  | succ m ih =>
    rw [List.range_succ, List.findSome?_append] at h
    cases hbefore : (List.range m).findSome? f with
    | some b =>
      rw [hbefore] at h
      obtain rfl := Option.some.inj h
      obtain ⟨n, hn, hfirst, hnone⟩ := ih hbefore
      exact ⟨n, by omega, hfirst, hnone⟩
    | none =>
      rw [hbefore] at h
      have hnone := List.findSome?_eq_none_iff.mp hbefore
      exact ⟨m, by omega, by simpa using h, fun i hi => hnone i (List.mem_range.mpr hi)⟩

theorem pow_length_toDigits_le {n : ℕ} (hn : 0 < n) :
    10 ^ ((Nat.toDigits 10 n).length - 1) ≤ n := by
  have hlength := Nat.length_toDigits_pos (b := 10) (n := n)
  by_cases hone : (Nat.toDigits 10 n).length = 1
  · rw [hone]
    exact hn
  · by_contra hless
    have := (Nat.length_toDigits_le_iff (by decide) (by omega)).mpr (not_le.mp hless)
    omega

theorem gridFloor_negSucc (c k : ℕ) :
    gridFloor c (.negSucc k) = Binary64.units c * Nat.pow 10 (k + 1) / unitsPerOne := by
  simp only [gridFloor, powerOfTen, one_mul]

theorem leadingExponent_eq (c : ℕ) :
    leadingExponent c = (Nat.toDigits 10 (gridFloor c (-324))).length - 325 := by
  unfold leadingExponent
  -- under a name, so that the power is not evaluated
  generalize hn : 324 = n
  obtain ⟨k, rfl⟩ : ∃ k, n = k + 1 := ⟨323, hn.symm⟩
  have hk : (-324 : ℤ) = .negSucc k := by omega
  rw [hk, gridFloor_negSucc]

section Search

variable {c : ℕ} (hc : 0 < c)

theorem gridStep_add (k : ℤ) (n : ℕ) : gridStep (k + n) = 10 ^ n * gridStep k := by
  rw [gridStep, gridStep, zpow_add₀ (by norm_num), zpow_natCast]
  ring

/-- The finest grid goes by less than a quarter of a unit. -/
theorem gridStep_finest : 4 * gridStep (-324) < 1 := by
  have hpow : 4 * unitsPerOne < (powerOfTen (-324)).2 := by decide +kernel
  have hnum : (powerOfTen (-324)).1 = 1 := rfl
  obtain ⟨hpower, -, hden⟩ := powerOfTen_eq (-324)
  rw [gridStep, ← hpower, hnum]
  generalize (powerOfTen (-324)).2 = den at hpow hden
  generalize unitsPerOne = one at hpow
  rw [Nat.cast_one, one_div_mul_eq_div, mul_div_assoc', div_lt_one (by exact_mod_cast hden)]
  exact_mod_cast hpow

include hc

theorem one_le_units : (1 : ℚ) ≤ Binary64.units c := by
  have := units_strictMono hc
  rw [units_zero] at this
  exact_mod_cast this

theorem leadingExponent_bounds : -324 ≤ leadingExponent c ∧
    gridStep (leadingExponent c) ≤ Binary64.units c ∧
      (Binary64.units c : ℚ) < gridStep (leadingExponent c + 1) := by
  have hfine := gridStep_finest
  have hpos := gridStep_pos (-324)
  have hunits := one_le_units hc
  obtain ⟨hle, hlt⟩ := gridFloor_bounds c (-324)
  have hdef := leadingExponent_eq c
  generalize gridFloor c (-324) = n at hle hlt hdef
  have hn : 0 < n := by
    by_contra hzero
    obtain rfl : n = 0 := by omega
    rw [Nat.cast_zero, zero_add, one_mul] at hlt
    linarith
  have hlength := Nat.length_toDigits_pos (b := 10) (n := n)
  have hbelow := fun k => Nat.length_toDigits_le_iff (n := n) (k := k) (show 1 < 10 by decide)
  obtain ⟨l, hl⟩ := Nat.exists_eq_add_of_lt hlength
  rw [hl] at hdef hbelow
  have hhigh : n < 10 ^ (l + 1) := (hbelow (l + 1) (by omega)).mp (by omega)
  have hlow : 10 ^ l ≤ n := by
    have := pow_length_toDigits_le hn
    rwa [hl, Nat.add_sub_cancel, zero_add] at this
  refine ⟨by omega, ?_, ?_⟩
  · rw [show leadingExponent c = -324 + (l : ℕ) by omega, gridStep_add]
    refine le_trans (mul_le_mul_of_nonneg_right ?_ hpos.le) hle
    exact_mod_cast hlow
  · rw [show leadingExponent c + 1 = -324 + (l + 1 : ℕ) by omega, gridStep_add]
    refine lt_of_lt_of_le hlt (mul_le_mul_of_nonneg_right ?_ hpos.le)
    exact_mod_cast hhigh

/-- A grid 16 digits behind the first one is fine enough. -/
theorem fine_of_digits : 2 * gridStep (leadingExponent c - 16) <
    Binary64.units (c + 1) - Binary64.units (c - 1) := by
  obtain ⟨-, hle, -⟩ := leadingExponent_bounds hc
  rw [show leadingExponent c = leadingExponent c - 16 + (16 : ℕ) by omega, gridStep_add] at hle
  obtain ⟨p, rfl⟩ := Nat.exists_eq_add_of_lt hc
  rw [zero_add] at hle ⊢
  have hbelow : (Binary64.units p + spacing p : ℚ) ≤ 2 ^ 53 * spacing p := by
    exact_mod_cast units_add_spacing_le p
  have habove : (Binary64.units (p + 1) + spacing (p + 1) : ℚ) ≤ 2 ^ 53 * spacing (p + 1) := by
    exact_mod_cast units_add_spacing_le (p + 1)
  have hspacing : (0 : ℚ) < spacing (p + 1) := by exact_mod_cast spacing_pos (p + 1)
  rw [Nat.add_sub_cancel]
  linarith [cast_units_succ p, cast_units_succ (p + 1)]

/-- On the finest grid every number has a decimal. -/
theorem fine_of_finest : 2 * gridStep (-324) <
    Binary64.units (c + 1) - Binary64.units (c - 1) := by
  have hunits : (Binary64.units (c - 1) + 1 : ℚ) ≤ Binary64.units c := by
    exact_mod_cast units_strictMono (show c - 1 < c by omega)
  have habove := cast_units_lt (Nat.lt_succ_self c)
  linarith [gridStep_finest]

/-- The search finds a decimal on the first grid that has one, on that of the 17th digit at the
latest, and not below 10⁻³²⁴. -/
theorem exists_found (tie : Tie) : ∃ d n, n < maxDigits ∧ -324 ≤ leadingExponent c - n ∧
    onGrid tie c (leadingExponent c - n) = some d ∧
      (∀ i < n, onGrid tie c (leadingExponent c - (i : ℕ)) = none) ∧
      shortest tie c = stripZeros maxDigits d := by
  obtain ⟨hleading, -, -⟩ := leadingExponent_bounds hc
  obtain ⟨last, hlast, hsome⟩ : ∃ last : ℕ, (last < maxDigits ∧ -324 ≤ leadingExponent c - last) ∧
      (onGrid tie c (leadingExponent c - last)).isSome := by
    -- A first digit below 10⁻³⁰⁸ leaves fewer than 17 down to the finest grid.
    by_cases hfew : leadingExponent c < -308
    · obtain ⟨n, hn⟩ : ∃ n : ℕ, leadingExponent c + 324 = n :=
        ⟨(leadingExponent c + 324).toNat, by omega⟩
      refine ⟨n, ⟨?_, by omega⟩, ?_⟩
      · rw [maxDigits]
        omega
      · rw [show leadingExponent c - n = -324 by omega]
        exact onGrid_isSome tie hc (fine_of_finest hc)
    · exact ⟨16, ⟨by decide, by omega⟩, onGrid_isSome tie hc (fine_of_digits hc)⟩
  have hfound : ((List.range maxDigits).findSome?
      fun (n : ℕ) => onGrid tie c (leadingExponent c - n)).isSome :=
    List.findSome?_isSome_iff.mpr ⟨last, List.mem_range.mpr hlast.1, hsome⟩
  obtain ⟨d, hd⟩ := Option.isSome_iff_exists.mp hfound
  obtain ⟨n, hn, hfirst, hnone⟩ := exists_first hd
  have hle : n ≤ last := by
    by_contra hlater
    rw [hnone last (by omega)] at hsome
    contradiction
  exact ⟨d, n, hn, by omega, hfirst, hnone, by rw [shortest, hd, Option.getD_some]⟩

end Search

/-! ## Trailing zeros -/

theorem stripZeros_units (n : ℕ) (d : Decimal) : (stripZeros n d).units = d.units := by
  induction n generalizing d with
  | zero => rfl
  | succ n ih =>
    rw [stripZeros]
    split
    case isTrue h =>
      have hdiv : (d.significand : ℚ) = (d.significand / 10 : ℕ) * 10 := by
        exact_mod_cast (Nat.div_mul_cancel (Nat.dvd_of_mod_eq_zero h.2)).symm
      rw [ih, units_mk, show d.exponent + 1 = d.exponent + (1 : ℕ) from rfl, gridStep_add,
        pow_one, ← mul_assoc, ← hdiv, ← units_mk]
    case isFalse => rfl

theorem stripZeros_power {n i : ℕ} (hi : i ≤ n) (k : ℤ) :
    stripZeros n ⟨10 ^ i, k⟩ = ⟨1, k + i⟩ := by
  induction n generalizing i k with
  | zero =>
    obtain rfl := Nat.le_zero.mp hi
    simp [stripZeros]
  | succ n ih =>
    cases i with
    | zero => simp [stripZeros]
    | succ i =>
      have hdiv : 10 ^ (i + 1) / 10 = 10 ^ i := by rw [pow_succ, Nat.mul_div_cancel _ (by decide)]
      have hmod : 10 ^ (i + 1) % 10 = 0 := by rw [pow_succ, Nat.mul_mod_left]
      rw [stripZeros, if_pos ⟨pow_ne_zero _ (by decide), hmod⟩]
      simp only [hdiv]
      rw [ih (by omega), Nat.cast_add, Nat.cast_one, add_assoc, add_comm (1 : ℤ)]

theorem stripZeros_bounds (n : ℕ) (d : Decimal) :
    (stripZeros n d).significand ≤ d.significand ∧ d.exponent ≤ (stripZeros n d).exponent := by
  induction n generalizing d with
  | zero => exact ⟨le_rfl, le_rfl⟩
  | succ n ih =>
    rw [stripZeros]
    split
    case isTrue h =>
      obtain ⟨hsignificand, hexponent⟩ := ih ⟨d.significand / 10, d.exponent + 1⟩
      simp only at hsignificand hexponent
      exact ⟨by omega, by omega⟩
    case isFalse => exact ⟨le_rfl, le_rfl⟩

/-! ## The decimal found -/

theorem units_infinityCode_lt : (Binary64.units infinityCode : ℚ) < gridStep 309 := by
  have hpow : Binary64.units infinityCode < (powerOfTen 309).1 * unitsPerOne := by decide +kernel
  have hden : (powerOfTen 309).2 = 1 := rfl
  obtain ⟨hpower, -, -⟩ := powerOfTen_eq 309
  rw [gridStep, ← hpower, hden, Nat.cast_one, div_one]
  generalize (powerOfTen 309).1 = num at hpow
  generalize unitsPerOne = one at hpow
  generalize Binary64.units infinityCode = top at hpow
  exact_mod_cast hpow

section Found

variable (tie : Tie) {c : ℕ} (hc : 0 < c)

include hc

/-- The shortest decimal of a number rounds to the number. -/
theorem nearest_shortest : Nearest (shortest tie c).units c := by
  obtain ⟨d, n, -, -, hd, -, hshortest⟩ := exists_found hc tie
  rw [hshortest, stripZeros_units]
  exact (of_onGrid hd).1

theorem shortest_significand_pos : 0 < (shortest tie c).significand := by
  have hnearest := nearest_shortest tie hc
  by_contra hzero
  have hunits : (shortest tie c).units = 0 := by
    rw [units, show (shortest tie c).significand = 0 by omega, Nat.cast_zero, zero_mul, zero_mul]
  rw [hunits] at hnearest
  exact hc.ne (nearest_zero.eq hnearest)

/-- The shortest decimal is found on the first grid that has one, and has no more digits than it
takes to come there. -/
theorem shortest_digits : ∃ n < maxDigits, (shortest tie c).significand < 10 ^ (n + 1) ∧
    (∀ i < n, onGrid tie c (leadingExponent c - (i : ℕ)) = none) ∧
      ∃ d, onGrid tie c (leadingExponent c - n) = some d ∧ (shortest tie c).units = d.units := by
  obtain ⟨d, n, hn, -, hd, hnone, hshortest⟩ := exists_found hc tie
  have hunits : (shortest tie c).units = d.units := by rw [hshortest, stripZeros_units]
  refine ⟨n, hn, ?_, hnone, d, hd, hunits⟩
  rw [hshortest]
  have hle := (gridFloor_bounds c (leadingExponent c - n)).1
  have hlt := (leadingExponent_bounds hc).2.2
  rw [show leadingExponent c + 1 = leadingExponent c - n + (n + 1 : ℕ) by omega,
    gridStep_add] at hlt
  have hfloor : gridFloor c (leadingExponent c - n) < 10 ^ (n + 1) := by
    exact_mod_cast lt_of_mul_lt_mul_right (hle.trans_lt hlt) (gridStep_pos _).le
  have hnext := (of_onGrid hd).2.2
  by_cases hfull : d.significand = 10 ^ (n + 1)
  · obtain ⟨s, k⟩ := d
    obtain rfl : s = 10 ^ (n + 1) := hfull
    rw [stripZeros_power hn]
    exact Nat.one_lt_pow n.succ_ne_zero (by decide)
  · exact lt_of_le_of_lt (stripZeros_bounds maxDigits d).1 (by omega)

theorem shortest_significand_lt : (shortest tie c).significand < 10 ^ 17 := by
  obtain ⟨n, hn, hlt, -⟩ := shortest_digits tie hc
  exact hlt.trans_le (Nat.pow_le_pow_right (by decide) hn)

theorem shortest_exponent_ge : -324 ≤ (shortest tie c).exponent := by
  obtain ⟨d, n, -, hn, hd, -, hshortest⟩ := exists_found hc tie
  rw [hshortest]
  have := (stripZeros_bounds maxDigits d).2
  rw [(of_onGrid hd).2.1] at this
  omega

theorem shortest_exponent_le (hfinite : c < infinityCode) : (shortest tie c).exponent ≤ 308 := by
  have hupper := (nearest_shortest tie hc).upper
  have hpos := shortest_significand_pos tie hc
  have htop := units_infinityCode_lt
  have hunits := cast_units_le hfinite.le
  have hnext := cast_units_le (Nat.succ_le_of_lt hfinite)
  generalize shortest tie c = d at hupper hpos ⊢
  by_contra hlarge
  obtain ⟨n, hn⟩ : ∃ n : ℕ, d.exponent = 309 + n := ⟨(d.exponent - 309).toNat, by omega⟩
  have hpower : (1 : ℚ) ≤ d.significand * 10 ^ n := by
    exact_mod_cast Nat.mul_pos hpos (Nat.pow_pos (by decide))
  have hvalue : d.units = d.significand * 10 ^ n * gridStep 309 := by
    obtain ⟨s, k⟩ := d
    obtain rfl : k = 309 + n := hn
    rw [units_mk, gridStep_add, mul_assoc]
  have hlow := mul_le_mul_of_nonneg_right hpower (gridStep_pos 309).le
  rw [← hvalue, one_mul] at hlow
  generalize gridStep 309 = g at htop hlow
  linarith

end Found

end ResumableFormulas.Decimal
