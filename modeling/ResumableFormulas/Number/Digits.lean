/-! # The value of decimal digits

The number that a sequence of digits stands for, the most significant digit first. A long sequence
is halved a number of times before its digits are added up one after another, so that a numeral of
many thousands of digits is valued by few and balanced products. How often it is halved does not
matter.
-/
namespace ResumableFormulas.Digits

/-- The value of digits that are halved `level` times. -/
def valueAt : Nat → List Char → Nat
  | 0, ds => Nat.ofDigitChars 10 ds 0
  | level + 1, ds =>
    let low := ds.drop (ds.length / 2)
    Nat.pow 10 low.length * valueAt level (ds.take (ds.length / 2)) + valueAt level low

/-- Digits are halved until there are less than twice as many as this. -/
def blockLength : Nat := 512

/-- The value of digits. -/
def value (ds : List Char) : Nat := valueAt (ds.length / blockLength).log2 ds

theorem valueAt_eq_ofDigitChars (level : Nat) (ds : List Char) :
    valueAt level ds = Nat.ofDigitChars 10 ds 0 := by
  induction level generalizing ds with
  | zero => rfl
  | succ level ih =>
    simp only [valueAt, ih, Nat.pow_eq]
    rw [← Nat.ofDigitChars_eq_ofDigitChars_zero, ← Nat.ofDigitChars_append, List.take_append_drop]

theorem value_eq_ofDigitChars (ds : List Char) : value ds = Nat.ofDigitChars 10 ds 0 :=
  valueAt_eq_ofDigitChars _ ds

end ResumableFormulas.Digits
