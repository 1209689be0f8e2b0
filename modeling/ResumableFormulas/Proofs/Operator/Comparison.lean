import Mathlib.Order.Compare
import ResumableFormulas.Operator.Lifting

/-! # Comparisons

The six comparisons of the table all come down to the order of two scalars, and equality is that
order between scalars of one kind. Two texts are ordered by their characters and all others as
numbers, so an order runs through three scalars only if they are all compared in the same way: a
number between two texts can close a circle.
-/
namespace ResumableFormulas

namespace Binary64

theorem order?_eq_some_iff {x y : Float} {o : Ordering} : order? x y = some o ↔
    datum x ≠ .notANumber ∧ datum y ≠ .notANumber ∧ compare (rank x) (rank y) = o := by
  rw [order?]
  split
  case isTrue h =>
    refine ⟨nofun, fun ⟨hx, hy, _⟩ => ?_⟩
    exact absurd h (not_or.mpr ⟨hx, hy⟩)
  case isFalse h =>
    obtain ⟨hx, hy⟩ := not_or.mp h
    rw [Option.some.injEq]
    exact ⟨fun ho => ⟨hx, hy, ho⟩, fun ho => ho.2.2⟩

theorem order?_eq_none_iff {x y : Float} :
    order? x y = none ↔ datum x = .notANumber ∨ datum y = .notANumber := by
  rw [order?]
  split <;> simp [*]

theorem order?_swap (x y : Float) : order? y x = (order? x y).map Ordering.swap := by
  simp only [order?, or_comm (a := datum y = _)]
  split
  · rfl
  · rw [Option.map_some, ← Std.OrientedCmp.eq_swap]

theorem order?_self {x : Float} (h : datum x ≠ .notANumber) : order? x x = some .eq :=
  order?_eq_some_iff.mpr ⟨h, h, Std.ReflCmp.compare_self⟩

end Binary64

namespace Scalar
open Binary64

def isText : Scalar → Bool
  | text _ => true
  | number _ | truth _ => false

/-- Both are numbers, or texts, or truth values. -/
inductive SameKind : Scalar → Scalar → Prop
  | number (x y : Float) : SameKind (.number x) (.number y)
  | text (s t : String) : SameKind (.text s) (.text t)
  | truth (b c : Bool) : SameKind (.truth b) (.truth c)

/-- Two scalars without an order: they are compared as numbers, and one of them is none. -/
def Unordered (a b : Scalar) : Prop :=
  ¬(a.isText ∧ b.isText) ∧ (datum a.toNumber = .notANumber ∨ datum b.toNumber = .notANumber)

/-- Three scalars any two of which are compared in the same way. -/
def Uniform (a b c : Scalar) : Prop :=
  [a, b, c].all isText ∨ [a, b, c].countP isText ≤ 1

variable {a b c : Scalar} {o : Ordering}

theorem order_of_not_texts (h : ¬(a.isText ∧ b.isText)) :
    a.order b = order? a.toNumber b.toNumber := by
  unfold order
  split
  · exact absurd ⟨rfl, rfl⟩ h
  · rfl

theorem order_eq_none_iff : a.order b = none ↔ a.Unordered b := by
  by_cases h : a.isText ∧ b.isText
  · match a, b, h with
    | .text s, .text t, h => exact ⟨nofun, fun hu => absurd h hu.1⟩
  · rw [order_of_not_texts h, order?_eq_none_iff, Unordered, and_iff_right h]

theorem order_swap (a b : Scalar) : b.order a = (a.order b).map Ordering.swap := by
  by_cases h : a.isText ∧ b.isText
  · match a, b, h with
    | .text s, .text t, _ => exact congrArg some Std.OrientedCmp.eq_swap
  · rw [order_of_not_texts h, order_of_not_texts (mt And.symm h), order?_swap]

theorem not_order_self_lt (a : Scalar) : a.order a ≠ some .lt := by
  intro h
  have hswap := order_swap a a
  rw [h] at hswap
  contradiction

/-- Uniform scalars are three texts, or no two of them are. -/
theorem Uniform.cases (h : Uniform a b c) :
    (∃ s t u, a = .text s ∧ b = .text t ∧ c = .text u) ∨
      ¬(a.isText ∧ b.isText) ∧ ¬(b.isText ∧ c.isText) ∧ ¬(a.isText ∧ c.isText) := by
  cases a <;> cases b <;> cases c <;> simp_all [Uniform, isText, List.countP_cons]

/-- Among uniform scalars, being below goes on to the next one, and so does being equal. -/
theorem Uniform.order_trans (h : Uniform a b c) (ho : o ≠ .gt) (hab : a.order b = some o)
    (hbc : b.order c = some o) : a.order c = some o := by
  have hcompare : ∀ {α : Type} [Ord α] [Std.TransOrd α] {x y z : α},
      compare x y = o → compare y z = o → compare x z = o := by
    intro α _ _ x y z hxy hyz
    cases o with
    | lt => exact Std.TransCmp.lt_trans hxy hyz
    | eq => exact Std.TransCmp.eq_trans hxy hyz
    | gt => exact absurd rfl ho
  rcases h.cases with ⟨s, t, u, rfl, rfl, rfl⟩ | ⟨hab', hbc', hac'⟩
  · exact congrArg some (hcompare (Option.some.inj hab) (Option.some.inj hbc))
  · rw [order_of_not_texts hab', order?_eq_some_iff] at hab
    rw [order_of_not_texts hbc', order?_eq_some_iff] at hbc
    rw [order_of_not_texts hac', order?_eq_some_iff]
    exact ⟨hab.1, hbc.2.1, hcompare hab.2.2 hbc.2.2⟩

theorem SameKind.symm (h : SameKind a b) : SameKind b a := by
  cases h <;> constructor

theorem SameKind.uniform (hab : SameKind a b) (hbc : SameKind b c) :
    SameKind a c ∧ Uniform a b c := by
  cases hab <;> cases hbc <;> refine ⟨by constructor, ?_⟩ <;> simp [Uniform, isText]

/-- Equality is what the order says of scalars of one kind. -/
theorem equal_iff : a.equal b ↔ SameKind a b ∧ a.order b = some .eq := by
  match a, b with
  | .number x, .number y => simp [equal, order, toNumber, SameKind.number]
  | .text s, .text t => simp [equal, order, SameKind.text]
  | .truth b, .truth c =>
    rw [and_iff_right (SameKind.truth b c)]
    cases b <;> cases c <;> decide +kernel
  | .number _, .text _ | .number _, .truth _ | .text _, .number _ | .text _, .truth _
  | .truth _, .number _ | .truth _, .text _ =>
    refine ⟨nofun, fun h => ?_⟩
    cases h.1

end Scalar

namespace BinaryOperator
open Binary64

/-- The operators that compare. -/
def comparisons : List BinaryOperator := [equal, different, less, greater, atMost, atLeast]

/-- A comparison of two scalars is true. -/
def Holds (operator : BinaryOperator) (a b : Scalar) : Prop :=
  operator.onScalars a b = Value.truth true

instance (operator : BinaryOperator) (a b : Scalar) : Decidable (operator.Holds a b) :=
  inferInstanceAs (Decidable (_ = _))

section

variable {a b c : Scalar}

theorem truth_inj {x y : Bool} : Value.truth x = Value.truth y ↔ x = y := by
  simp [Value.truth]

theorem holds_equal : Holds equal a b ↔ a.SameKind b ∧ a.order b = some .eq :=
  truth_inj.trans Scalar.equal_iff

theorem holds_different : Holds different a b ↔ ¬Holds equal a b := by
  rw [Holds, Holds, onScalars, onScalars, truth_inj, truth_inj, Bool.not_eq_true', Bool.not_eq_true]

/-- A comparison has no other results than the truth values. -/
theorem onScalars_comparison {operator : BinaryOperator} (h : operator ∈ comparisons) :
    operator.onScalars a b = Value.truth (operator.Holds a b) := by
  obtain ⟨x, hx⟩ : ∃ x, operator.onScalars a b = Value.truth x := by
    simp only [comparisons, List.mem_cons, List.not_mem_nil, or_false] at h
    rcases h with rfl | rfl | rfl | rfl | rfl | rfl <;> exact ⟨_, rfl⟩
  simp only [Holds, hx, truth_inj]
  cases x <;> rfl

theorem holds_ordered {accept : Ordering → Bool} :
    ordered accept a b = Value.truth true ↔ ∃ o, a.order b = some o ∧ accept o := by
  rw [ordered, truth_inj, Option.any_eq_true]

theorem holds_less : Holds less a b ↔ a.order b = some .lt := by
  simp [Holds, onScalars, holds_ordered, Ordering.isLT_iff_eq_lt]

theorem holds_greater : Holds greater a b ↔ a.order b = some .gt := by
  simp [Holds, onScalars, holds_ordered, Ordering.isGT_iff_eq_gt]

theorem holds_atMost : Holds atMost a b ↔ a.order b = some .lt ∨ a.order b = some .eq := by
  simp [Holds, onScalars, holds_ordered, Ordering.isLE_iff_eq_lt_or_eq_eq, and_or_left, exists_or]

theorem holds_atLeast : Holds atLeast a b ↔ a.order b = some .gt ∨ a.order b = some .eq := by
  simp [Holds, onScalars, holds_ordered, Ordering.isGE_iff_eq_gt_or_eq_eq, and_or_left, exists_or]

end

/-- What the comparisons of two scalars have to do with one another. -/
structure Coherent (a b : Scalar) : Prop where
  mirror : (Holds less a b ↔ Holds greater b a) ∧ (Holds atMost a b ↔ Holds atLeast b a)
  unordered : a.Unordered b →
    ¬Holds less a b ∧ ¬Holds greater a b ∧ ¬Holds atMost a b ∧ ¬Holds atLeast a b
  /-- Exactly one of less, greater, and both at most and at least. -/
  ordered : ¬a.Unordered b →
    (Holds less a b ∧ ¬Holds greater a b ∧ ¬(Holds atMost a b ∧ Holds atLeast a b) ∨
      ¬Holds less a b ∧ Holds greater a b ∧ ¬(Holds atMost a b ∧ Holds atLeast a b) ∨
      ¬Holds less a b ∧ ¬Holds greater a b ∧ Holds atMost a b ∧ Holds atLeast a b) ∧
    (Holds atMost a b ↔ ¬Holds greater a b) ∧ (Holds atLeast a b ↔ ¬Holds less a b)
  different : Holds different a b ↔ ¬Holds equal a b
  symmetric : Holds equal a b → Holds equal b a
  kind : Holds equal a b → a.SameKind b
  equal : a.SameKind b → (Holds equal a b ↔ Holds atMost a b ∧ Holds atLeast a b)

theorem coherent (a b : Scalar) : Coherent a b where
  mirror := by
    simp only [holds_less, holds_greater, holds_atMost, holds_atLeast, Scalar.order_swap a b]
    rcases a.order b with _ | _ | _ | _ <;> decide
  unordered h := by
    simp [holds_less, holds_greater, holds_atMost, holds_atLeast, Scalar.order_eq_none_iff.mpr h]
  ordered h := by
    obtain ⟨o, ho⟩ := Option.ne_none_iff_exists'.mp (mt Scalar.order_eq_none_iff.mp h)
    simp only [holds_less, holds_greater, holds_atMost, holds_atLeast, ho, Option.some.injEq]
    cases o <;> decide
  different := holds_different
  symmetric h := by
    obtain ⟨hkind, horder⟩ := holds_equal.mp h
    refine holds_equal.mpr ⟨hkind.symm, ?_⟩
    rw [Scalar.order_swap, horder]
    rfl
  kind h := (holds_equal.mp h).1
  equal h := by
    rw [holds_equal, and_iff_right h, holds_atMost, holds_atLeast]
    rcases a.order b with _ | _ | _ | _ <;> decide

theorem holds_equal_self (a : Scalar) :
    Holds equal a a ↔ ∀ x, a = .number x → datum x ≠ .notANumber := by
  constructor
  · rintro h x rfl
    exact (order?_eq_some_iff.mp (holds_equal.mp h).2).1
  · intro h
    refine holds_equal.mpr ?_
    match a with
    | .number x => exact ⟨.number x x, order?_self (h x rfl)⟩
    | .text s => exact ⟨.text s s, congrArg some Std.ReflCmp.compare_self⟩
    | .truth b => exact ⟨.truth b b, by cases b <;> decide +kernel⟩

/-- The comparisons of the table are coherent: less and greater mirror each other, at most and at
least are their opposites wherever there is an order, different is the opposite of equal, and equal
is both at most and at least within one kind. Equal goes on to a third scalar, and so does less
among scalars that are compared in one way. -/
theorem comparisons_coherent (a b c : Scalar) :
    (∀ operator ∈ comparisons, ∀ {O σ : Type} (host : Host O σ) (origin : O) (p : Progress O σ),
      Pass.binary host operator origin (.scalar a) (.scalar b) p =
        some (.ready (.truth (operator.Holds a b)), p)) ∧
    Coherent a b ∧
    (Holds equal a b → Holds equal b c → Holds equal a c) ∧
    (Holds equal a a ↔ ∀ x, a = .number x → datum x ≠ .notANumber) ∧
    ¬Holds less a a ∧
    (a.Uniform b c → Holds less a b → Holds less b c → Holds less a c) := by
  refine ⟨?_, coherent a b, ?_, holds_equal_self a, ?_, ?_⟩
  · intro operator hoperator O σ host origin p
    rw [← onScalars_comparison hoperator]
    rfl
  · intro hab hbc
    obtain ⟨hkind, hab⟩ := holds_equal.mp hab
    obtain ⟨hkind', hbc⟩ := holds_equal.mp hbc
    obtain ⟨hac, huniform⟩ := hkind.uniform hkind'
    exact holds_equal.mpr ⟨hac, huniform.order_trans nofun hab hbc⟩
  · rw [holds_less]
    exact Scalar.not_order_self_lt a
  · intro huniform hab hbc
    rw [holds_less] at *
    exact huniform.order_trans nofun hab hbc

/-- A text between a truth value and a number is compared as a number. -/
theorem comparisons_coherent_of_one_text :
    Holds less (.truth false) (.text " 0.5 ") ∧
      Holds less (.text " 0.5 ") (.number (Binary64.ofNat 1)) ∧
      Holds less (.truth false) (.number (Binary64.ofNat 1)) := by
  have hlow : Holds less (.truth false) (.text " 0.5 ") := by decide +kernel
  have hhigh : Holds less (.text " 0.5 ") (.number (Binary64.ofNat 1)) := by decide +kernel
  have huniform : Scalar.Uniform (.truth false) (.text " 0.5 ") (.number (Binary64.ofNat 1)) :=
    .inr (by decide)
  obtain ⟨-, -, -, -, -, hless⟩ :=
    comparisons_coherent (.truth false) (.text " 0.5 ") (.number (Binary64.ofNat 1))
  exact ⟨hlow, hhigh, hless huniform hlow hhigh⟩

example : Holds less (.text "20") (.text "9") ∧
    Holds less (.text "9") (.number (Binary64.ofNat 10)) ∧
    Holds less (.number (Binary64.ofNat 10)) (.text "20") := by decide +kernel

end BinaryOperator

end ResumableFormulas
