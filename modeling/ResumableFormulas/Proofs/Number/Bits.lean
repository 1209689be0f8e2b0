import Mathlib
import ResumableFormulas.Number.Binary64

/-! # Codes and bit patterns

A number is its sign and its code, and both survive the way through the bits. Arithmetic goes over
unpacked numbers, a significand with an exponent; `Unpacked` tells which code such a number has, be
it in range or not, and packing it stops at the code of infinity.
-/
namespace ResumableFormulas.Binary64
open Float.Model (UnpackedFloat Format)
open Float.Model.UnpackedFloat (Sign unpackExponent unpackMantissa unpackSign packComponents)

theorem toNat_toBits (x : Float) :
    x.toBits.toNat = (if isNegative x then 2 ^ 63 else 0) + code x := by
  have hlt := x.toBits.toNat_lt
  simp only [isNegative, code, Nat.pow_eq, decide_eq_true_eq]
  split <;> omega

/-- A number is its sign and its code. -/
theorem float_ext {x y : Float} (hsign : isNegative x = isNegative y) (hcode : code x = code y) :
    x = y := by
  rw [← Float.toBits_inj, ← UInt64.toNat_inj, toNat_toBits, toNat_toBits, hsign, hcode]

theorem datum_of_finite {x : Float} (h : code x < infinityCode) :
    datum x = .finite (isNegative x) (code x) := by
  rw [datum, if_neg h.not_gt, if_neg h.ne]

theorem datum_eq_notANumber_iff {x : Float} : datum x = .notANumber ↔ infinityCode < code x := by
  rw [datum]
  split
  · simp [*]
  · split <;> simp [*]

theorem isFinite_datum (x : Float) : (datum x).isFinite = true ↔ code x < infinityCode := by
  rw [datum]
  split
  case isTrue h => simp only [Datum.isFinite, Bool.false_eq_true, false_iff]; omega
  case isFalse h =>
    split
    case isTrue heq => simp only [Datum.isFinite, Bool.false_eq_true, false_iff]; omega
    case isFalse hne => simp only [Datum.isFinite, true_iff]; omega

/-- The sign of an unpacked number. -/
def signOf (negative : Bool) : Sign := if negative then .negative else .positive

theorem signOf_mul (a b : Bool) : signOf a * signOf b = signOf (a ^^ b) := by
  cases a <;> cases b <;> rfl

theorem signOf_div (a b : Bool) : signOf a / signOf b = signOf (a ^^ b) := by
  cases a <;> cases b <;> rfl

theorem signOf_neg (a : Bool) : -signOf a = signOf (!a) := by cases a <;> rfl

/-- The code of an unpacked number that is in its lowest terms, and its sign. -/
inductive Unpacked (negative : Bool) : ℕ → UnpackedFloat → Prop
  | zero : Unpacked negative 0 (.zero (signOf negative))
  | finite {c e n : ℕ} {exponent : ℤ} (hn : 0 < n) (hhigh : n < 2 ^ 53)
    (hlow : e = 0 ∨ 2 ^ 52 ≤ n) (hexponent : exponent = e - 1074) (hc : c = e * 2 ^ 52 + n) :
    Unpacked negative c (.finite (signOf negative) n exponent hn)
  | infinite : Unpacked negative infinityCode (.infinity (signOf negative))

/-! ## Unpacking -/

section Unpacking

variable (b : BitVec Format.binary64.numBits)

theorem toNat_unpackMantissa : (unpackMantissa b).toNat = b.toNat % 2 ^ 52 := by
  simp [UnpackedFloat.unpackMantissa_def]

theorem toNat_unpackExponent : (unpackExponent b).toNat = b.toNat % 2 ^ 63 / 2 ^ 52 := by
  have hshift : (unpackExponent b).toNat = b.toNat / 2 ^ 52 % 2 ^ 11 := by
    simp [UnpackedFloat.unpackExponent_def, Nat.shiftRight_eq_div_pow]
  omega

theorem ofBitVec_unpackSign :
    Sign.ofBitVec (unpackSign b) = signOf (decide (2 ^ 63 ≤ b.toNat)) := by
  have hlt : b.toNat < 2 ^ 64 := b.isLt
  have hshift : (unpackSign b).toNat = b.toNat / 2 ^ 63 := by
    simp [UnpackedFloat.unpackSign_def, Nat.shiftRight_eq_div_pow]
    omega
  have hzero : unpackSign b = 0#1 ↔ b.toNat < 2 ^ 63 := by
    rw [← BitVec.toNat_inj, hshift, BitVec.toNat_ofNat]
    omega
  rw [Sign.ofBitVec, signOf]
  by_cases h : 2 ^ 63 ≤ b.toNat
  · rw [if_neg (by rw [hzero]; omega), if_pos (by simpa using h)]
  · rw [if_pos (by rw [hzero]; omega), if_neg (by simpa using h)]

theorem unpacked_unpack (h : b.toNat % 2 ^ 63 ≤ infinityCode) :
    Unpacked (decide (2 ^ 63 ≤ b.toNat)) (b.toNat % 2 ^ 63)
      (UnpackedFloat.unpack Format.binary64 b) := by
  have hmantissa := toNat_unpackMantissa b
  have hexponent := toNat_unpackExponent b
  have hones : unpackExponent b = -1#_ ↔ b.toNat % 2 ^ 63 / 2 ^ 52 = 2047 := by
    rw [← BitVec.toNat_inj, hexponent]
    rfl
  have hzeros : unpackExponent b = 0#_ ↔ b.toNat % 2 ^ 63 / 2 ^ 52 = 0 := by
    rw [← BitVec.toNat_inj, hexponent]
    rfl
  have hempty : unpackMantissa b = 0#_ ↔ b.toNat % 2 ^ 52 = 0 := by
    rw [← BitVec.toNat_inj, hmantissa]
    rfl
  have hinfinity : infinityCode = 2047 * 2 ^ 52 := rfl
  have hbias : Format.binary64.exponentBias = 1023 := rfl
  simp only [UnpackedFloat.unpack, ofBitVec_unpackSign]
  split
  case isTrue hinf =>
    rw [hones] at hinf
    rw [if_pos (hempty.mpr (by omega)), show b.toNat % 2 ^ 63 = infinityCode by omega]
    exact .infinite
  case isFalse hfin =>
    rw [hones] at hfin
    split
    case isTrue hsub =>
      rw [hzeros] at hsub
      split
      case isTrue hzero =>
        rw [hempty] at hzero
        rw [show b.toNat % 2 ^ 63 = 0 by omega]
        exact .zero
      case isFalse hpos =>
        rw [hempty] at hpos
        exact .finite (e := 0) _ (by omega) (.inl rfl) (by omega) (by omega)
    case isFalse hnormal =>
      rw [hzeros] at hnormal
      have hlead : (1#1 ++ unpackMantissa b).toNat = 2 ^ 52 + b.toNat % 2 ^ 52 := by
        rw [BitVec.toNat_append, ← Nat.shiftLeft_add_eq_or_of_lt (unpackMantissa b).isLt,
          hmantissa]
        rfl
      exact .finite (e := b.toNat % 2 ^ 63 / 2 ^ 52 - 1) _ (by omega) (by omega) (by omega)
        (by omega)

end Unpacking

/-! ## Packing -/

theorem toNat_packComponents (negative : Bool) (exponent : BitVec 11) (mantissa : BitVec 52) :
    (packComponents Format.binary64 (signOf negative) exponent mantissa).toNat =
      (if negative then 2 ^ 63 else 0) + (exponent.toNat * 2 ^ 52 + mantissa.toNat) := by
  have hsign : (signOf negative).toBitVec.toNat = if negative then 1 else 0 := by
    cases negative <;> rfl
  have hexponent := exponent.isLt
  have hmantissa := mantissa.isLt
  rw [packComponents, BitVec.toNat_append, BitVec.toNat_append,
    ← Nat.shiftLeft_add_eq_or_of_lt hexponent, ← Nat.shiftLeft_add_eq_or_of_lt hmantissa, hsign,
    Nat.shiftLeft_eq, Nat.shiftLeft_eq]
  cases negative
  · simp
  · simp
    omega

/-- The float of an unpacked number. -/
def packed (f : UnpackedFloat) : Float := .ofModel (Float.Model.pack f)

theorem toNat_toBits_packed (f : UnpackedFloat) :
    (packed f).toBits.toNat = (UnpackedFloat.pack Format.binary64 f).toNat := rfl

theorem sign_and_code_of_toNat {x : Float} {negative : Bool} {c : ℕ} (hc : c < 2 ^ 63)
    (h : x.toBits.toNat = (if negative then 2 ^ 63 else 0) + c) :
    isNegative x = negative ∧ code x = c := by
  cases negative <;> simp [isNegative, code] at h ⊢ <;> omega

theorem Unpacked.packed {negative : Bool} {c : ℕ} {f : UnpackedFloat} (h : Unpacked negative c f) :
    isNegative (packed f) = negative ∧ code (packed f) = min c infinityCode := by
  have hinfinity : infinityCode = 2047 * 2 ^ 52 := rfl
  refine sign_and_code_of_toNat (by omega) ?_
  rw [toNat_toBits_packed]
  cases h with
  | zero =>
    rw [UnpackedFloat.pack, UnpackedFloat.packedZero, toNat_packComponents]
    rfl
  | infinite =>
    rw [UnpackedFloat.pack, UnpackedFloat.packedInfinity, toNat_packComponents, min_self]
    rfl
  | @finite _ e n exponent hn hhigh hlow hexponent hc =>
    have hlog : n.log2 + 1 = Format.binary64.mantissaBits ↔ 2 ^ 52 ≤ n := by
      have hle : 52 ≤ n.log2 ↔ 2 ^ 52 ≤ n := Nat.le_log2 hn.ne'
      have hlt : n.log2 < 53 := (Nat.log2_lt hn.ne').mpr hhigh
      rw [← hle, show Format.binary64.mantissaBits = 53 from rfl]
      omega
    have hbiased : (exponent + Format.binary64.exponentBias + (52 : ℕ)).toNat = e + 1 := by
      rw [hexponent, show Format.binary64.exponentBias = 1023 from rfl]
      omega
    simp only [UnpackedFloat.pack, hbiased]
    split
    case isTrue hover =>
      rw [UnpackedFloat.packedInfinity, toNat_packComponents, min_eq_right (by omega)]
      rfl
    case isFalse hin =>
      rw [min_eq_left (by omega), hc]
      split
      case isTrue hnormal =>
        rw [hlog] at hnormal
        rw [toNat_packComponents, BitVec.toNat_ofNat, BitVec.toNat_ofNat,
          Nat.mod_eq_of_lt (by omega)]
        omega
      case isFalse hsub =>
        rw [hlog] at hsub
        obtain rfl : e = 0 := by omega
        rw [toNat_packComponents, BitVec.toNat_ofNat n, Nat.mod_eq_of_lt (by omega)]
        rfl

/-! ## The way through the bits -/

theorem unpacked_toModel (x : Float) (h : code x ≤ infinityCode) :
    Unpacked (isNegative x) (code x) x.toModel.unpack :=
  unpacked_unpack x.toModel.toBits.toBitVec h

section OfCode

variable (negative : Bool) {c : ℕ} (hc : c ≤ infinityCode)

include hc

theorem ofCode_sign_and_code :
    isNegative (ofCode negative c) = negative ∧ code (ofCode negative c) = c := by
  have hinfinity : infinityCode = 2047 * 2 ^ 52 := rfl
  let b := UInt64.ofNat (if negative then Nat.pow 2 63 + c else c)
  have hb : b.toBitVec.toNat = if negative then 2 ^ 63 + c else c := by
    change (UInt64.ofNat _).toNat = _
    rw [UInt64.toNat_ofNat_of_lt']
    · rfl
    · change _ < 2 ^ 64
      simp only [Nat.pow_eq]
      split <;> omega
  have hsign : decide (2 ^ 63 ≤ b.toBitVec.toNat) = negative := by
    rw [hb]
    cases negative
    · simp
      omega
    · simp
  have hcode : b.toBitVec.toNat % 2 ^ 63 = c := by
    rw [hb]
    split <;> omega
  have hunpacked := unpacked_unpack b.toBitVec (by omega)
  rw [hsign, hcode] at hunpacked
  have hpacked := hunpacked.packed
  rwa [min_eq_left hc] at hpacked

@[simp] theorem isNegative_ofCode : isNegative (ofCode negative c) = negative :=
  (ofCode_sign_and_code negative hc).1

@[simp] theorem code_ofCode : code (ofCode negative c) = c := (ofCode_sign_and_code negative hc).2

end OfCode

/-- Sign and code make up a number that is finite or infinite. -/
theorem ofCode_code {x : Float} (h : code x ≤ infinityCode) :
    ofCode (isNegative x) (code x) = x :=
  float_ext (isNegative_ofCode _ h) (code_ofCode _ h)

end ResumableFormulas.Binary64
