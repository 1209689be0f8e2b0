import Mathlib.Tactic.IntervalCases
import ResumableFormulas.Json.Writer
import ResumableFormulas.Proofs.Json.Scaling
import ResumableFormulas.Proofs.Number.Literal

/-! # Numerals as written and as read

A numeral in its parts, well-formed by the grammar of JSON, has a text that is scanned back into it.
The number writer produces such texts, in five shapes, and the digits it writes are those of the
shortest decimal, up to zeros it adds before the point.
-/
namespace ResumableFormulas.Numeral
open Binary64

/-! ## Texts of numerals -/

/-- The text of a fraction. -/
def fractionText : Option (List Char) → List Char
  | none => []
  | some ds => '.' :: ds

/-- The text of an exponent, its sign always written. -/
def exponentText : Option (Bool × List Char) → List Char
  | none => []
  | some (negative, ds) => 'e' :: (if negative then '-' else '+') :: ds

/-- The text of a numeral. -/
def text (n : Numeral) : List Char :=
  (if n.negative then ['-'] else []) ++
    (n.whole ++ (fractionText n.fraction ++ exponentText n.exponent))

/-- Digits, of which there is at least one. -/
structure IsDigits (ds : List Char) : Prop where
  digits : ∀ c ∈ ds, c.isDigit
  ne_nil : ds ≠ []

/-- The grammar of JSON: no leading zeros, and digits wherever there can be some. -/
structure WellFormed (n : Numeral) : Prop where
  whole : IsDigits n.whole
  leading : n.whole.head? = some '0' → n.whole = ['0']
  fraction : ∀ ds ∈ n.fraction, IsDigits ds
  exponent : ∀ e ∈ n.exponent, IsDigits e.2

/-- What follows digits without being one more. -/
def NoDigit (cs : List Char) : Prop := ∀ c ∈ cs.head?, ¬c.isDigit = true

theorem noDigit_nil : NoDigit [] := by simp [NoDigit]

theorem noDigit_cons {c : Char} (h : c.isDigit = false) (cs : List Char) : NoDigit (c :: cs) := by
  simp [NoDigit, h]

theorem digits?_append {ds rest : List Char} (hds : IsDigits ds) (hrest : NoDigit rest) :
    digits? (ds ++ rest) = some (ds, rest) := by
  have hsplit := NumberLiteral.digits_append hds.digits fun c hc => by simpa using hrest c hc
  have htake : (ds ++ rest).takeWhile Char.isDigit = ds := congrArg Prod.fst hsplit
  have hdrop : (ds ++ rest).dropWhile Char.isDigit = rest := congrArg Prod.snd hsplit
  rw [digits?, htake, hdrop]
  obtain ⟨d, ds, rfl⟩ := List.exists_cons_of_ne_nil hds.ne_nil
  rfl

section Scan

variable {n : Numeral} (h : n.WellFormed)

theorem noDigit_exponentText (e : Option (Bool × List Char)) : NoDigit (exponentText e) := by
  rcases e with _ | ⟨negative, ds⟩
  · exact noDigit_nil
  · exact noDigit_cons (by decide) _

theorem noDigit_fractionText (f : Option (List Char)) {rest : List Char} (hrest : NoDigit rest) :
    NoDigit (fractionText f ++ rest) := by
  cases f with
  | none => exact hrest
  | some ds => exact noDigit_cons (by decide) _

include h

theorem whole?_text {rest : List Char} (hrest : NoDigit rest) :
    whole? (n.whole ++ rest) = some (n.whole, rest) := by
  rw [whole?, digits?_append h.whole hrest]
  split
  case h_1 heq =>
    have hwhole : n.whole = _ := congrArg Prod.fst (Option.some.inj heq)
    have hzero := h.leading (by rw [hwhole]; rfl)
    rw [hzero] at hwhole
    exact absurd hwhole (by simp)
  case h_2 => rfl

theorem exponent?_text : exponent? (exponentText n.exponent) = some (n.exponent, []) := by
  rcases he : n.exponent with _ | ⟨negative, ds⟩
  · rfl
  · have hds := digits?_append (h.exponent _ he) noDigit_nil
    rw [List.append_nil] at hds
    cases negative
    · simp [exponentText, exponent?, hds]
    · simp [exponentText, exponent?, hds]

theorem fraction?_text : fraction? (fractionText n.fraction ++ exponentText n.exponent) =
    some (n.fraction, exponentText n.exponent) := by
  rcases hf : n.fraction with _ | ds
  · rcases n.exponent with _ | ⟨negative, ds⟩
    · rfl
    · rfl
  · have hds := digits?_append (h.fraction _ hf) (noDigit_exponentText n.exponent)
    simp [fractionText, fraction?, hds]

/-- The text of a well-formed numeral is scanned back. -/
theorem scan?_text : scan? n.text = some (n, []) := by
  have hwhole := whole?_text h (noDigit_fractionText n.fraction (noDigit_exponentText n.exponent))
  have hfraction := fraction?_text h
  have hexponent := exponent?_text h
  obtain ⟨negative, whole, fraction, exponent⟩ := n
  cases negative with
  | true => simp [scan?, text, hwhole, hfraction, hexponent]
  | false =>
    obtain ⟨d, ds, rfl⟩ : ∃ d ds, whole = d :: ds := List.exists_cons_of_ne_nil h.whole.ne_nil
    have hdigit : d ≠ '-' := fun heq => by
      have := h.whole.digits d (List.mem_cons_self ..)
      rw [heq] at this
      contradiction
    simp only [List.cons_append] at hwhole
    simp [scan?, text, hdigit, hwhole, hfraction, hexponent]

end Scan

/-! ## Values of numerals -/

/-- The digits of a numeral and the exponent of the last one. -/
def decimal (n : Numeral) : Decimal :=
  Decimal.ofDigits n.whole (n.fraction.getD [])
    (match n.exponent with
      | none => 0
      | some (negative, ds) => if negative then -(Digits.value ds : ℤ) else Digits.value ds)

theorem le_ofDigitChars (s : ℕ) (ds : List Char) : s ≤ Nat.ofDigitChars 10 ds s := by
  rw [Nat.ofDigitChars_eq_ofDigitChars_zero]
  have : 1 ≤ 10 ^ ds.length := Nat.one_le_pow _ _ (by decide)
  nlinarith

theorem accumulate_of_le {s : ℕ} {ds : List Char}
    (h : Nat.ofDigitChars 10 ds s ≤ significandLimit) :
    accumulate s ds = (Nat.ofDigitChars 10 ds s, []) := by
  induction ds generalizing s with
  | nil => rfl
  | cons c ds ih =>
    rw [Nat.ofDigitChars_cons] at h ⊢
    rw [accumulate, if_pos ((le_ofDigitChars _ ds).trans h), ih h]

section Value

variable {n : Numeral}

theorem significand_decimal : n.decimal.significand =
    Nat.ofDigitChars 10 (n.fraction.getD []) (Nat.ofDigitChars 10 n.whole 0) := by
  rw [decimal, Decimal.ofDigits, Digits.value_eq_ofDigitChars, Nat.ofDigitChars_append]

/-- Digits that fit are all taken. -/
theorem magnitude?_eq_scale? (hfit : n.decimal.significand ≤ significandLimit)
    (hlimit : ∀ e ∈ n.exponent, Digits.value e.2 ≤ exponentLimit) :
    magnitude? n = scale? n.decimal.significand n.decimal.exponent := by
  rw [significand_decimal] at hfit ⊢
  have hfraction := accumulate_of_le hfit
  have hwhole := accumulate_of_le ((le_ofDigitChars _ (n.fraction.getD [])).trans hfit)
  simp only [magnitude?, hwhole, hfraction, List.length_nil, Nat.sub_zero, Nat.cast_zero, zero_sub]
  rcases he : n.exponent with _ | ⟨negative, ds⟩
  · simp [decimal, Decimal.ofDigits, he]
  · have hle : ¬exponentLimit < Digits.value ds := not_lt.mpr (hlimit _ he)
    simp only [decimal, Decimal.ofDigits, he]
    rw [if_neg hle]
    cases negative
    · congr 1
      simp
      omega
    · congr 1
      simp
      omega

/-- The value of a numeral that is no plain integer and whose digits fit. -/
theorem value?_eq_scale? (hkind : n.fraction ≠ none ∨ n.exponent ≠ none)
    (hfit : n.decimal.significand ≤ significandLimit)
    (hlimit : ∀ e ∈ n.exponent, Digits.value e.2 ≤ exponentLimit) :
    n.value? = (scale? n.decimal.significand n.decimal.exponent).map fun x =>
      .real (if n.negative then -x else x) := by
  rw [← magnitude?_eq_scale? hfit hlimit, value?]
  split
  case h_1 => simp_all
  case h_2 => rfl

end Value

/-! ## The numerals that are written -/

/-- The numeral written for a decimal. -/
def written (negative : Bool) (d : Decimal) : Numeral :=
  let digits := Nat.toDigits 10 d.significand
  let exponent := d.exponent + digits.length - 1
  if Layout.json.positional exponent then
    match exponent with
    | .negSucc k => ⟨negative, ['0'], some (List.replicate k '0' ++ digits), none⟩
    | .ofNat k =>
      if digits.length ≤ k + 1 then
        ⟨negative, digits ++ List.replicate (k + 1 - digits.length) '0', some ['0'], none⟩
      else ⟨negative, digits.take (k + 1), some (digits.drop (k + 1)), none⟩
  else
    ⟨negative, digits.take 1, if digits.drop 1 = [] then none else some (digits.drop 1),
      some (decide (exponent < 0), Nat.toDigits 10 exponent.natAbs)⟩

section Written

variable (negative : Bool) (d : Decimal)

theorem negative_written : (written negative d).negative = negative := by
  rw [written]
  split
  · split
    · rfl
    · split <;> rfl
  · rfl

theorem text_written : (written negative d).text =
    (if negative then ['-'] else []) ++ Layout.json.decimalText d := by
  simp only [written, Layout.decimalText]
  generalize Nat.toDigits 10 d.significand = digits
  generalize d.exponent + digits.length - 1 = exponent
  split
  · cases exponent with
    | negSucc k => simp [text, fractionText, exponentText, Layout.positionalText]
    | ofNat k =>
      simp only [Layout.positionalText]
      split
      · simp [text, fractionText, exponentText, Layout.json]
      · simp [text, fractionText, exponentText]
  · simp only [Layout.exponentText]
    generalize digits.drop 1 = rest
    cases exponent with
    | ofNat k => cases rest <;> simp [text, fractionText, exponentText, Layout.json]
    | negSucc k => cases rest <;> simp [text, fractionText, exponentText]

/-- A numeral begins with a zero only if it is the numeral of zero. -/
theorem head?_toDigits {n : ℕ} (hn : 0 < n) : (Nat.toDigits 10 n).head? ≠ some '0' := by
  induction n using Nat.strongRecOn with
  | ind n ih =>
    rw [Nat.toDigits_eq_if (by decide)]
    split
    case isTrue h => interval_cases n <;> decide
    case isFalse h =>
      rw [List.head?_append_of_ne_nil _ Nat.toDigits_ne_nil]
      exact ih _ (by omega) (by omega)

theorem isDigits_toDigits (n : ℕ) : IsDigits (Nat.toDigits 10 n) :=
  ⟨NumberLiteral.isDigit_toDigits n, Nat.toDigits_ne_nil⟩

theorem IsDigits.append {ds ds' : List Char} (h : ∀ c ∈ ds, c.isDigit) (h' : IsDigits ds') :
    IsDigits (ds ++ ds') :=
  ⟨fun c hc => (List.mem_append.mp hc).elim (h c) (h'.digits c), by simp [h'.ne_nil]⟩

theorem wellFormed_written (hpos : 0 < d.significand) : (written negative d).WellFormed := by
  have hdigits := isDigits_toDigits d.significand
  have hhead := head?_toDigits hpos
  simp only [written]
  generalize Nat.toDigits 10 d.significand = digits at hdigits hhead ⊢
  generalize d.exponent + digits.length - 1 = exponent
  have hpart : ∀ ds : List Char, (∀ c ∈ ds, c ∈ digits) → ds ≠ [] → IsDigits ds :=
    fun ds hmem hne => ⟨fun c hc => hdigits.digits c (hmem c hc), hne⟩
  have htake : ∀ k, IsDigits (digits.take (k + 1)) := fun k =>
    hpart _ (fun c hc => List.mem_of_mem_take hc) (by simp [hdigits.ne_nil])
  have hleading : ∀ k, (digits.take (k + 1)).head? ≠ some '0' := fun k => by
    rwa [List.head?_take, if_neg k.succ_ne_zero]
  split
  case isTrue =>
    cases exponent with
    | negSucc k =>
      have hfraction : IsDigits (List.replicate k '0' ++ digits) :=
        .append (fun _ => NumberLiteral.isDigit_of_mem_zeros) hdigits
      exact ⟨⟨by simp, by simp⟩, fun _ => rfl, by simpa using hfraction, by simp⟩
    | ofNat k =>
      simp only
      split
      case isTrue =>
        refine ⟨⟨?_, by simp [hdigits.ne_nil]⟩, fun hzero => ?_, ?_, by simp⟩
        · intro c hc
          exact (List.mem_append.mp hc).elim (hdigits.digits c) NumberLiteral.isDigit_of_mem_zeros
        · rw [List.head?_append_of_ne_nil _ hdigits.ne_nil] at hzero
          exact absurd hzero hhead
        · intro ds hds
          obtain rfl := Option.some.inj hds
          exact ⟨by simp, by simp⟩
      case isFalse hlong =>
        refine ⟨htake k, fun hzero => absurd hzero (hleading k), ?_, by simp⟩
        intro ds hds
        obtain rfl := Option.some.inj hds
        exact hpart _ (fun c hc => List.mem_of_mem_drop hc)
          (fun hnil => hlong (List.drop_eq_nil_iff.mp hnil))
  case isFalse =>
    refine ⟨htake 0, fun hzero => absurd hzero (hleading 0), ?_, ?_⟩
    · intro ds hds
      simp only at hds
      split at hds
      case isTrue => contradiction
      case isFalse hmore =>
        obtain rfl := Option.some.inj hds
        exact hpart _ (fun c hc => List.mem_of_mem_drop hc) hmore
    · intro e he
      obtain rfl := Option.some.inj he
      exact isDigits_toDigits _

/-! ## Their values -/

/-- What the digits written amount to: the decimal itself, or for whole numbers all digits before
the point and a zero after it. -/
theorem decimal_written (negative : Bool) (d : Decimal) :
    (written negative d).decimal = d ∨
      ∃ j : ℕ, d.exponent = j ∧ (Nat.toDigits 10 d.significand).length + j ≤ 16 ∧
        (written negative d).decimal = ⟨d.significand * 10 ^ j * 10, -1⟩ := by
  have hvalue := Nat.ofDigitChars_ten_toDigits (n := d.significand)
  obtain ⟨s, e⟩ := d
  have hlength := Nat.length_toDigits_pos (b := 10) (n := s)
  simp only [written]
  generalize Nat.toDigits 10 s = digits at hvalue hlength ⊢
  generalize hexponent : e + digits.length - 1 = exponent
  simp only at hvalue
  split
  case isTrue hpositional =>
    cases exponent with
    | negSucc k =>
      left
      simp only [decimal, Decimal.ofDigits, Digits.value_eq_ofDigitChars, Option.getD_some,
        Decimal.mk.injEq, List.length_append, List.length_replicate]
      refine ⟨?_, by omega⟩
      rw [Nat.ofDigitChars_append, Nat.ofDigitChars_append, Nat.ofDigitChars_replicate_zero]
      simpa [Nat.ofDigitChars_cons] using hvalue
    | ofNat k =>
      replace hexponent : e + digits.length - 1 = (k : ℤ) := hexponent
      simp only
      split
      case isTrue hshort =>
        right
        have hlimit : -5 ≤ (k : ℤ) ∧ (k : ℤ) < 16 := of_decide_eq_true hpositional
        refine ⟨k + 1 - digits.length, by omega, by omega, ?_⟩
        simp only [decimal, Decimal.ofDigits, Digits.value_eq_ofDigitChars, Option.getD_some,
          Decimal.mk.injEq, List.length_singleton]
        refine ⟨?_, by omega⟩
        rw [Nat.ofDigitChars_append, Nat.ofDigitChars_append, hvalue,
          Nat.ofDigitChars_replicate_zero, mul_comm s]
        simp [Nat.ofDigitChars_cons, mul_comm]
      case isFalse hlong =>
        left
        simp only [decimal, Decimal.ofDigits, Digits.value_eq_ofDigitChars, Option.getD_some,
          List.take_append_drop, Decimal.mk.injEq, List.length_drop]
        exact ⟨hvalue, by omega⟩
  case isFalse =>
    left
    have hfraction : (if digits.drop 1 = [] then none else some (digits.drop 1)).getD [] =
        digits.drop 1 := by
      split
      case isTrue hnil => rw [hnil]; rfl
      case isFalse => rfl
    have hpower : (if decide (exponent < 0) then -(exponent.natAbs : ℤ) else exponent.natAbs) =
        exponent := by
      by_cases hneg : exponent < 0
      · rw [if_pos (decide_eq_true hneg)]
        omega
      · rw [if_neg (mt of_decide_eq_true hneg)]
        omega
    simp only [decimal, Decimal.ofDigits, hfraction, Digits.value_eq_ofDigitChars,
      Nat.ofDigitChars_ten_toDigits, hpower, List.take_append_drop, Decimal.mk.injEq,
      List.length_drop]
    exact ⟨hvalue, by omega⟩

end Written

/-- A decimal of at most 17 digits or of the number that follows them, of an exponent such as the
shortest decimals of numbers have. -/
structure InRange (d : Decimal) : Prop where
  pos : 0 < d.significand
  significand : d.significand ≤ 10 ^ 17
  low : -324 ≤ d.exponent
  high : d.exponent ≤ 308

theorem kind_written (negative : Bool) (d : Decimal) :
    (written negative d).fraction ≠ none ∨ (written negative d).exponent ≠ none := by
  simp only [written]
  split
  case isTrue =>
    left
    split
    · exact Option.some_ne_none _
    · split <;> exact Option.some_ne_none _
  case isFalse => exact .inr (Option.some_ne_none _)

section InRange

variable {d : Decimal} (h : InRange d) (negative : Bool)

include h

/-- The exponent written is far from the limit for those that are read. -/
theorem exponent_written : ∀ e ∈ (written negative d).exponent,
    Digits.value e.2 ≤ exponentLimit := by
  have hlength : (Nat.toDigits 10 d.significand).length ≤ 18 := by
    rw [Nat.length_toDigits_le_iff (by decide) (by decide)]
    exact h.significand.trans_lt (by decide)
  have hlow := h.low
  have hhigh := h.high
  intro e he
  simp only [written] at he
  split at he
  case isTrue =>
    split at he
    · contradiction
    · split at he <;> contradiction
  case isFalse =>
    obtain rfl := Option.some.inj he
    rw [Digits.value_eq_ofDigitChars, Nat.ofDigitChars_ten_toDigits]
    have : 1000 ≤ exponentLimit := by decide
    omega

/-- The zeros that are added leave the value and the bounds as they are. -/
theorem inRange_written : InRange (written negative d).decimal ∧
    (written negative d).decimal.units = d.units := by
  obtain heq | ⟨j, hj, hlength, heq⟩ := decimal_written negative d
  · rw [heq]
    exact ⟨h, rfl⟩
  · have hdigits : d.significand < 10 ^ (Nat.toDigits 10 d.significand).length :=
      (Nat.length_toDigits_le_iff (by decide) Nat.length_toDigits_pos).mp le_rfl
    have hscale : 0 < 10 ^ j := Nat.pow_pos (by decide)
    rw [heq]
    refine ⟨⟨?_, ?_, (by decide : (-324 : ℤ) ≤ -1), (by decide : (-1 : ℤ) ≤ 308)⟩, ?_⟩
    · exact Nat.mul_pos (Nat.mul_pos h.pos hscale) (by decide)
    · calc d.significand * 10 ^ j * 10
          ≤ 10 ^ (Nat.toDigits 10 d.significand).length * 10 ^ j * 10 :=
            Nat.mul_le_mul_right _ (Nat.mul_le_mul_right _ hdigits.le)
        _ = 10 ^ ((Nat.toDigits 10 d.significand).length + j + 1) := by rw [pow_succ, pow_add]
        _ ≤ 10 ^ 17 := Nat.pow_le_pow_right (by decide) (by omega)
    · simp only [Decimal.units, hj, zpow_natCast, zpow_neg_one]
      push_cast
      ring

/-- How the text of a decimal is valued. -/
theorem value?_written : (written negative d).value? =
    (scale? (written negative d).decimal.significand (written negative d).decimal.exponent).map
      fun x => .real (if negative then -x else x) := by
  have hfit := (inRange_written h negative).1.significand.trans
    (show 10 ^ 17 ≤ significandLimit by decide)
  rw [value?_eq_scale? (kind_written negative d) hfit (exponent_written h negative),
    negative_written]

end InRange

end ResumableFormulas.Numeral
