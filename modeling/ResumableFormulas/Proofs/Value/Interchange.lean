import ResumableFormulas.Proofs.Json.Beginning
import ResumableFormulas.Value.Interchange

/-! # Scalars through JSON

A scalar has one JSON text, whether it is written directly or by way of its document. Texts and
truth values are read back from it as they were. So are most numbers, but not all: reading a numeral
rounds its digits, a power of ten and what the two give, and ends up to two codes away.
-/
namespace ResumableFormulas

/-! ## Documents of one scalar -/

namespace Json

theorem first?_quote (cs : List Char) :
    first? (JsonText.quote cs) = some (.text (String.ofList cs), []) := by
  simp [first?, JsonText.quote, document?, skipBlanks, JsonText.read?_quoted]

theorem exists_text_eq_cons {n : Numeral} (h : n.WellFormed) :
    ∃ c cs, n.text = c :: cs ∧ c ∉ noNumeralHeads := by
  obtain ⟨c, used, htext, hc, -⟩ := Numeral.scan?_split (Numeral.scan?_text h)
  exact ⟨c, used ++ [], htext, not_mem_noNumeralHeads hc⟩

/-- A well-formed numeral is read as a number. -/
theorem first?_text {n : Numeral} {v : JsonNumber} (h : n.WellFormed) (hv : n.value? = some v) :
    first? n.text = some (.number v, []) := by
  have hscan := Numeral.scan?_text h
  obtain ⟨c, cs, htext, hhead⟩ := exists_text_eq_cons h
  rw [htext] at hscan ⊢
  simp only [noNumeralHeads, List.mem_cons, List.not_mem_nil, or_false, not_or] at hhead
  simp [first?, document?, skipBlanks, hhead, hscan, hv]

end Json

/-! ## Numbers -/

namespace Numeral
open Binary64

/-- The numeral that is written for a positive number. -/
def shortest (negative : Bool) (c : ℕ) : Numeral := written negative (Decimal.shortest .even c)

/-- The digits of a numeral, the point left out, are those of a binary64 number, and so are those of
the power of ten that puts it back. -/
structure Exact (n : Numeral) : Prop where
  digits : units (code (ofNat n.decimal.significand)) = n.decimal.significand * unitsPerOne
  low : -22 ≤ n.decimal.exponent
  high : n.decimal.exponent ≤ 22

section Shortest

variable {c : ℕ} (hpos : 0 < c) (hfinite : c < infinityCode) (negative : Bool)

include hpos hfinite

theorem inRange_decimal : InRange (Decimal.shortest .even c) :=
  ⟨Decimal.shortest_significand_pos .even hpos, (Decimal.shortest_significand_lt .even hpos).le,
    Decimal.shortest_exponent_ge .even hpos, Decimal.shortest_exponent_le .even hpos hfinite⟩

theorem wellFormed_shortest : (shortest negative c).WellFormed :=
  wellFormed_written _ _ (inRange_decimal hpos hfinite).pos

theorem inRange_shortest : InRange (shortest negative c).decimal :=
  (inRange_written (inRange_decimal hpos hfinite) negative).1

theorem value?_shortest : (shortest negative c).value? =
    (scale? (shortest negative c).decimal.significand (shortest negative c).decimal.exponent).map
      fun x => .real (if negative then -x else x) :=
  value?_written (inRange_decimal hpos hfinite) negative

/-- A number is nearest to the numeral that is written for it. -/
theorem nearest_shortest : Nearest (shortest negative c).decimal.units c := by
  rw [shortest, (inRange_written (inRange_decimal hpos hfinite) negative).2]
  exact Decimal.nearest_shortest .even hpos

/-- Near the end of the finite range there is no room for two codes more, but the digits of the two
largest numbers are read as the largest one. -/
theorem lands_shortest : ∃ y, scale? (shortest negative c).decimal.significand
    (shortest negative c).decimal.exponent = some y ∧ Lands c y := by
  have hrange := inRange_shortest hpos hfinite negative
  by_cases hroom : c + 2 < infinityCode
  · exact lands_scale? hrange.pos hrange.significand hrange.low hrange.high
      (nearest_shortest hpos hfinite negative) hroom
  · have hlargest : ∀ c ∈ [infinityCode - 2, infinityCode - 1], ∀ negative,
        scale? (shortest negative c).decimal.significand (shortest negative c).decimal.exponent =
          some (ofCode false (infinityCode - 1)) := by
      decide +kernel
    refine ⟨_, hlargest c ?_ negative, ?_, ?_, ?_⟩
    · simp only [List.mem_cons, List.not_mem_nil, or_false]
      omega
    · rw [code_ofCode _ (Nat.sub_le ..)]
      omega
    · exact isNegative_ofCode _ (Nat.sub_le ..)
    · rw [code_ofCode _ (Nat.sub_le ..)]
      exact ⟨by omega, by omega⟩

theorem scale?_shortest (h : (shortest negative c).Exact) :
    scale? (shortest negative c).decimal.significand (shortest negative c).decimal.exponent =
      some (ofCode false c) :=
  have hrange := inRange_shortest hpos hfinite negative
  scale?_exact hrange.significand h.low h.high h.digits (nearest_shortest hpos hfinite negative)
    hfinite

end Shortest

end Numeral

namespace Scalar
open Binary64

/-- A number as it comes back from its text: finite, with the sign it had and at most two codes
away, and the number it was if the digits of its text are exact. -/
structure ReadBack (x y : Float) : Prop where
  finite : (datum y).isFinite = true
  sign : isNegative y = isNegative x
  near : WithinTwo (code x) (code y)
  exact : ∃ n, Numeral.scan? (toJsonText (.number x)).toList = some (n, []) ∧ (n.Exact → y = x)

theorem toJsonText_of_finite {x : Float} (h : code x < infinityCode) :
    toJsonText (.number x) = String.ofList
      ((if isNegative x then ['-'] else []) ++ Layout.json.magnitudeText (code x)) := by
  rw [toJsonText, if_pos ((isFinite_datum x).mpr h), Layout.write, Layout.characters,
    datum_of_finite h]

/-- The text of a number other than zero is that of the numeral written for it. -/
theorem toJsonText_of_pos {x : Float} (hpos : 0 < code x) (h : code x < infinityCode) :
    toJsonText (.number x) = String.ofList (Numeral.shortest (isNegative x) (code x)).text := by
  rw [toJsonText_of_finite h, Layout.magnitudeText, if_neg hpos.ne', Numeral.shortest,
    Numeral.text_written]
  rfl

theorem readJson_text {n : Numeral} {y : Float} (h : n.WellFormed)
    (hv : n.value? = some (.real y)) : readJson (String.ofList n.text) = .ok (.number y) := by
  rw [readJson, String.toList_ofList, Json.first?_text h hv]
  rfl

theorem readBack_zero (negative : Bool) :
    readJson (toJsonText (.number (ofCode negative 0))) = .ok (.number (ofCode negative 0)) ∧
      ReadBack (ofCode negative 0) (ofCode negative 0) := by
  cases negative
  · exact ⟨by decide +kernel, by decide +kernel, rfl, ⟨by omega, by omega⟩, _, rfl, fun _ => rfl⟩
  · exact ⟨by decide +kernel, by decide +kernel, rfl, ⟨by omega, by omega⟩, _, rfl, fun _ => rfl⟩

/-- What a sign does to a number without one. -/
theorem signed_sign_and_code (negative : Bool) {z : Float} (hpositive : isNegative z = false)
    (hfinite : code z < infinityCode) :
    isNegative (if negative then -z else z) = negative ∧
      code (if negative then -z else z) = code z := by
  cases negative with
  | false => exact ⟨hpositive, rfl⟩
  | true =>
    obtain ⟨hsign, hcode⟩ := neg_sign_and_code hfinite.le
    rw [hpositive] at hsign
    exact ⟨hsign, hcode⟩

/-- A finite number is read back from its text, if not always as the same number. -/
theorem readBack {x : Float} (hfinite : code x < infinityCode) :
    ∃ y, readJson (toJsonText (.number x)) = .ok (.number y) ∧ ReadBack x y := by
  obtain hzero | hpos := Nat.eq_zero_or_pos (code x)
  · have hx := ofCode_code hfinite.le
    have hback := readBack_zero (isNegative x)
    rw [hzero] at hx
    rw [hx] at hback
    exact ⟨x, hback⟩
  · have hwell := Numeral.wellFormed_shortest hpos hfinite (isNegative x)
    have htext := toJsonText_of_pos hpos hfinite
    have hvalue := Numeral.value?_shortest hpos hfinite (isNegative x)
    obtain ⟨z, hz, hlands⟩ := Numeral.lands_shortest hpos hfinite (isNegative x)
    obtain ⟨hsign, hcode⟩ := signed_sign_and_code (isNegative x) hlands.positive hlands.finite
    rw [hz, Option.map_some] at hvalue
    have hexact := Numeral.scale?_shortest hpos hfinite (isNegative x)
    generalize Numeral.shortest (isNegative x) (code x) = n at *
    refine ⟨if isNegative x then -z else z, ?_, ?_, hsign, ?_, n, ?_, ?_⟩
    · rw [htext]
      exact readJson_text hwell hvalue
    · rw [isFinite_datum, hcode]
      exact hlands.finite
    · rw [hcode]
      exact hlands.near
    · rw [htext, String.toList_ofList]
      exact Numeral.scan?_text hwell
    · intro h
      obtain rfl := Option.some.inj (hz.symm.trans (hexact h))
      refine float_ext hsign ?_
      rw [hcode, code_ofCode _ hfinite.le]

/-! ## All scalars -/

/-- Both ways to the text lead to one text. -/
theorem write_toJson (s : Scalar) : Json.write s.toJson = s.toJsonText := by
  cases s with
  | text s => rfl
  | truth b => cases b <;> rfl
  | number x =>
    rw [toJson, toJsonText]
    split <;> rfl

/-- What becomes of a scalar that is written as JSON and read again, as a document and as text. -/
theorem json_roundTrip (s : Scalar) : Json.write s.toJson = s.toJsonText ∧
    match s with
    | .text _ | .truth _ => ofJson? s.toJson = some s ∧ readJson s.toJsonText = .ok s
    | .number x =>
      if (datum x).isFinite then
        ofJson? s.toJson = some s ∧
          ∃ y, readJson s.toJsonText = .ok (.number y) ∧ ReadBack x y
      else
        s.toJson = .null ∧ ofJson? s.toJson = none ∧ s.toJsonText = "null" ∧
          readJson s.toJsonText = .error .wrongKind := by
  refine ⟨write_toJson s, ?_⟩
  cases s with
  | text s =>
    refine ⟨rfl, ?_⟩
    rw [toJsonText, readJson, String.toList_ofList, Json.first?_quote, String.ofList_toList]
    rfl
  | truth b => cases b <;> exact ⟨rfl, rfl⟩
  | number x =>
    simp only
    split
    case isTrue hfinite =>
      refine ⟨by rw [toJson, if_pos hfinite]; rfl, ?_⟩
      exact readBack ((isFinite_datum x).mp hfinite)
    case isFalse hfinite =>
      have hdocument : toJson (.number x) = .null := if_neg hfinite
      have htext : toJsonText (.number x) = "null" := if_neg hfinite
      rw [hdocument, htext]
      exact ⟨rfl, rfl, rfl, rfl⟩

/-- A finite number that comes back two codes away from where it was. -/
theorem json_roundTrip_inexact :
    (datum (ofCode false 0x740a7ad3acf55dbc)).isFinite = true ∧
      toJsonText (.number (ofCode false 0x740a7ad3acf55dbc)) = "9.479402883935263e+250" ∧
      readJson "9.479402883935263e+250" = .ok (.number (ofCode false 0x740a7ad3acf55dbe)) ∧
      readJson (toJsonText (.number (ofCode false 0x740a7ad3acf55dbc))) ≠
        .ok (.number (ofCode false 0x740a7ad3acf55dbc)) := by
  decide +kernel

end Scalar

end ResumableFormulas
