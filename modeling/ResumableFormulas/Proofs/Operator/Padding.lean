import Mathlib.Data.List.TakeWhile
import ResumableFormulas.Proofs.Operator.Comparison

/-! # Blanks around operands

An operator that takes its operands for numbers sees a text only through its number, and blanks at
the ends of a text do not change that. So arithmetic does not depend on them, and neither do the
orderings as long as the other operand is no text: two texts are ordered by all their characters.
-/
namespace ResumableFormulas

namespace Text

/-- Blanks added at either end are trimmed away again, and nothing else is. -/
theorem trim_append {before after : List Char} (hbefore : ∀ c ∈ before, isBlank c)
    (hafter : ∀ c ∈ after, isBlank c) (cs : List Char) :
    trim (before ++ (cs ++ after)) = trim cs := by
  rw [trim, trim, List.dropWhile_append_of_pos hbefore, List.dropWhile_append]
  split
  case isTrue h =>
    have hempty : cs.dropWhile isBlank = [] := List.isEmpty_iff.mp h
    rw [hempty, List.dropWhile_eq_nil_iff.mpr hafter]
  case isFalse =>
    have hreverse : ∀ c ∈ after.reverse, isBlank c := fun c hc => hafter c (List.mem_reverse.mp hc)
    rw [List.reverse_append, List.dropWhile_append_of_pos hreverse]

theorem trim_eq_nil {cs : List Char} (h : ∀ c ∈ cs, isBlank c) : trim cs = [] := by
  rw [trim, List.dropWhile_eq_nil_iff.mpr h]
  rfl

/-- A text of blank characters only. -/
def IsBlankText (s : String) : Prop := ∀ c ∈ s.toList, isBlank c

end Text

namespace Scalar

section

variable {before after : String} (hbefore : Text.IsBlankText before)
  (hafter : Text.IsBlankText after)

include hbefore hafter in
theorem textNumber_padded (s : String) : textNumber (before ++ s ++ after) = textNumber s := by
  rw [textNumber, String.toList_append, String.toList_append, List.append_assoc,
    Text.trim_append hbefore hafter]
  rfl

include hbefore in
theorem textNumber_of_blank : textNumber before = Binary64.ofNat 0 := by
  rw [textNumber, Text.trim_eq_nil hbefore]

end

/-- Two scalars that are not both texts are ordered by their numbers alone. -/
theorem order_congr {a a' b b' : Scalar} (ha : a.toNumber = a'.toNumber)
    (hb : b.toNumber = b'.toNumber) (h : ¬(a.isText ∧ b.isText)) (h' : ¬(a'.isText ∧ b'.isText)) :
    a.order b = a'.order b' := by
  rw [order_of_not_texts h, order_of_not_texts h', ha, hb]

end Scalar

namespace BinaryOperator

/-- The operators that calculate with numbers only. -/
def arithmetic : List BinaryOperator := [subtract, multiply, divide]

/-- The comparisons that go by the order of their operands. -/
def orderings : List BinaryOperator := [less, greater, atMost, atLeast]

section

variable {operator : BinaryOperator} {a a' b b' : Scalar}

theorem onScalars_of_arithmetic (h : operator ∈ arithmetic) (ha : a.toNumber = a'.toNumber)
    (hb : b.toNumber = b'.toNumber) : operator.onScalars a b = operator.onScalars a' b' := by
  have hnumeric : ∀ f, numeric f a b = numeric f a' b' := fun f => by rw [numeric, numeric, ha, hb]
  have hzero : isZeroDivisor b = isZeroDivisor b' := by rw [isZeroDivisor, isZeroDivisor, hb]
  simp only [arithmetic, List.mem_cons, List.not_mem_nil, or_false] at h
  rcases h with rfl | rfl | rfl <;> simp only [onScalars, hnumeric, hzero]

theorem onScalars_of_ordering (h : operator ∈ orderings) (hab : a.order b = a'.order b') :
    operator.onScalars a b = operator.onScalars a' b' := by
  simp only [orderings, List.mem_cons, List.not_mem_nil, or_false] at h
  rcases h with rfl | rfl | rfl | rfl <;> simp only [onScalars, ordered, hab]

end

end BinaryOperator

namespace Pass

variable {O σ : Type}

/-- An operator between two scalars asks nothing of the host. -/
theorem binary_scalars (host : Host O σ) (operator : BinaryOperator) (origin : O) (a b : Scalar) :
    binary host operator origin (.scalar a) (.scalar b) =
      return .ready (operator.onScalars a b) := rfl

/-- Blanks at the ends of an operand change the result of no operator that takes it for a number,
errors included; a divisor of blanks only counts as zero. -/
theorem numeric_operators_ignore_blanks {before after : String}
    (hbefore : Text.IsBlankText before) (hafter : Text.IsBlankText after) (s : String) (q : Scalar)
    (host : Host O σ) (origin : O) :
    (∀ operator ∈ BinaryOperator.arithmetic,
      binary host operator origin (.text (before ++ s ++ after)) (.scalar q) =
          binary host operator origin (.text s) (.scalar q) ∧
        binary host operator origin (.scalar q) (.text (before ++ s ++ after)) =
          binary host operator origin (.scalar q) (.text s)) ∧
    unary host .minus origin (.text (before ++ s ++ after)) = unary host .minus origin (.text s) ∧
    (q.isText = false → ∀ operator ∈ BinaryOperator.orderings,
      binary host operator origin (.text (before ++ s ++ after)) (.scalar q) =
          binary host operator origin (.text s) (.scalar q) ∧
        binary host operator origin (.scalar q) (.text (before ++ s ++ after)) =
          binary host operator origin (.scalar q) (.text s)) ∧
    binary host .divide origin (.scalar q) (.text before) =
      return .ready (.builtin .divisionByZero) := by
  have hnumber : (Scalar.text (before ++ s ++ after)).toNumber = (Scalar.text s).toNumber :=
    Scalar.textNumber_padded hbefore hafter s
  refine ⟨fun operator h => ⟨?_, ?_⟩, ?_, fun hq operator h => ⟨?_, ?_⟩, ?_⟩
  · simp only [Value.text, binary_scalars, BinaryOperator.onScalars_of_arithmetic h hnumber rfl]
  · simp only [Value.text, binary_scalars, BinaryOperator.onScalars_of_arithmetic h rfl hnumber]
  · change (return .ready (.scalar (Scalar.text (before ++ s ++ after)).negated)) =
      (return .ready (.scalar (Scalar.text s).negated) : Pass O σ (Suspendable Value))
    rw [Scalar.negated, Scalar.negated, hnumber]
  · have horder := Scalar.order_congr (b := q) hnumber rfl (by simp [hq]) (by simp [hq])
    simp only [Value.text, binary_scalars, BinaryOperator.onScalars_of_ordering h horder]
  · have horder := Scalar.order_congr (a := q) rfl hnumber (by simp [hq]) (by simp [hq])
    simp only [Value.text, binary_scalars, BinaryOperator.onScalars_of_ordering h horder]
  · have hzero : BinaryOperator.isZeroDivisor (.text before) = true := by
      rw [BinaryOperator.isZeroDivisor, Scalar.toNumber, Scalar.textNumber_of_blank hbefore]
      decide +kernel
    simp only [Value.text, binary_scalars, BinaryOperator.onScalars, hzero, if_true]

/-- A host without functions, whose objects answer everything with an error. -/
def barren : Host Unit Unit where
  read _ _ _ s := (.value (.builtin .notAnObject), s)
  call _ _ _ := failure

theorem numeric_operators_ignore_blanks_of_wide_spaces :
    Text.IsBlankText "\u00a0\t" ∧ Text.IsBlankText "\u3000" ∧
      binary barren .divide () (.text ("\u00a0\t" ++ "6" ++ "\u3000")) (.text "4 ") =
        binary barren .divide () (.text "6") (.text "4 ") ∧
      binary barren .less () (.truth true) (.text ("\u00a0\t" ++ "6" ++ "\u3000")) =
        binary barren .less () (.truth true) (.text "6") ∧
      binary barren .divide () (.text "6") (.text "\u00a0\t") =
        return .ready (.builtin .divisionByZero) := by
  have hbefore : Text.IsBlankText "\u00a0\t" := by
    intro c hc
    obtain rfl | rfl : c = '\u00a0' ∨ c = '\t' := by simpa using hc
    · rfl
    · rfl
  have hafter : Text.IsBlankText "\u3000" := by
    intro c hc
    obtain rfl : c = '\u3000' := by simpa using hc
    rfl
  obtain ⟨harithmetic, -, -, -⟩ :=
    numeric_operators_ignore_blanks hbefore hafter "6" (.text "4 ") barren ()
  obtain ⟨-, -, horder, -⟩ :=
    numeric_operators_ignore_blanks hbefore hafter "6" (.truth true) barren ()
  obtain ⟨-, -, -, hblank⟩ :=
    numeric_operators_ignore_blanks hbefore hafter "" (.text "6") barren ()
  exact ⟨hbefore, hafter, (harithmetic .divide (by decide)).1, (horder rfl .less (by decide)).2,
    hblank⟩

end Pass

end ResumableFormulas
