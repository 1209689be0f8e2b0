import ResumableFormulas.Proofs.Expression.OperatorTree
import ResumableFormulas.Proofs.Operator.Comparison

/-! # Sums of many scalars

Additions nested to the left go through their operands one by one. Up to the first text they add
numbers; from there on they join texts, and nothing that comes later makes them add again. A single
operand before the first text has not been added to anything and is joined as it is written.
-/
namespace ResumableFormulas

namespace Scalar

/-- The numbers of some scalars added up from the left, the first of them apart. -/
def numberSum (first : Scalar) (rest : List Scalar) : Float :=
  rest.foldl (fun x a => x + a.toNumber) first.toNumber

/-- The texts of some scalars one after another. -/
def joinedText (scalars : List Scalar) : String := String.join (scalars.map toText)

/-- What the scalars before the first text contribute to the text: a single one its own text, and
several the text of the number that they add up to. -/
def leadingText : List Scalar → String
  | [] => ""
  | [a] => a.toText
  | a :: b :: rest => (Scalar.number (numberSum a (b :: rest))).toText

/-- The scalar that an addition gives. -/
def plus : Scalar → Scalar → Scalar := BinaryOperator.primitive .add

theorem plus_text_left (s : String) (b : Scalar) : plus (.text s) b = .text (s ++ b.toText) := by
  cases b <;> rfl

theorem plus_text_right (a : Scalar) (t : String) : plus a (.text t) = .text (a.toText ++ t) := by
  cases a <;> rfl

theorem plus_numbers {a b : Scalar} (ha : a.isText = false) (hb : b.isText = false) :
    plus a b = .number (a.toNumber + b.toNumber) := by
  cases a <;> cases b <;> first | rfl | contradiction

/-- Once there is a text, all that follows is joined to it. -/
theorem foldl_plus_text (s : String) (rest : List Scalar) :
    rest.foldl plus (.text s) = .text (s ++ joinedText rest) := by
  induction rest generalizing s with
  | nil => simp [joinedText]
  | cons a rest ih =>
    rw [List.foldl_cons, plus_text_left, ih, String.append_assoc]
    simp [joinedText]

/-- As long as there is no text, numbers are added up. -/
theorem foldl_plus_numbers {first : Scalar} {rest : List Scalar} (hfirst : first.isText = false)
    (hrest : ∀ a ∈ rest, a.isText = false) (hne : rest ≠ []) :
    rest.foldl plus first = .number (numberSum first rest) := by
  induction rest generalizing first with
  | nil => exact absurd rfl hne
  | cons a rest ih =>
    obtain ⟨ha, hrest⟩ := List.forall_mem_cons.mp hrest
    rw [List.foldl_cons, plus_numbers hfirst ha]
    by_cases hlast : rest = []
    · subst hlast
      rfl
    · exact ih rfl hrest hlast

/-- The scalars before the first text leave what they contribute, and no text. -/
theorem foldl_plus_leading {first : Scalar} {rest : List Scalar}
    (h : ∀ a ∈ first :: rest, a.isText = false) :
    (rest.foldl plus first).toText = leadingText (first :: rest) := by
  obtain ⟨hfirst, hrest⟩ := List.forall_mem_cons.mp h
  cases rest with
  | nil => rfl
  | cons a rest => rw [foldl_plus_numbers hfirst hrest (List.cons_ne_nil a rest), leadingText]

/-- The first text turns what was added before it into text. -/
theorem foldl_plus_mixed {first : Scalar} {rest before after : List Scalar} {s : String}
    (hsplit : first :: rest = before ++ .text s :: after) (h : ∀ a ∈ before, a.isText = false) :
    rest.foldl plus first = .text (leadingText before ++ joinedText (.text s :: after)) := by
  have hjoin : joinedText (.text s :: after) = s ++ joinedText after := by simp [joinedText, toText]
  cases before with
  | nil =>
    obtain ⟨rfl, rfl⟩ := List.cons.inj hsplit
    rw [foldl_plus_text, hjoin, leadingText, String.empty_append]
  | cons a before =>
    rw [List.cons_append] at hsplit
    obtain ⟨rfl, rfl⟩ := List.cons.inj hsplit
    rw [List.foldl_append, List.foldl_cons, plus_text_right, foldl_plus_text, foldl_plus_leading h,
      hjoin, String.append_assoc]

end Scalar

namespace Expr
open Scalar

/-- Additions of scalars, nested to the left. -/
def leftSum (first : Scalar) (rest : List Scalar) : Expr :=
  rest.foldl (fun e a => .binary .add e (.literal (.value (.scalar a))))
    (.literal (.value (.scalar first)))

section

variable {σ : Type} (world : World σ) (call : Caller σ) (frame : Frame) {p : Progress String σ}

theorem eval_add {e : Expr} {a : Scalar}
    (he : e.eval world call frame p = some (.ready (.scalar a), p)) (b : Scalar) :
    (binary .add e (.literal (.value (.scalar b)))).eval world call frame p =
      some (.ready (.scalar (a.plus b)), p) := by
  have hsum : BinaryOperator.add.onScalars a b = .scalar (a.plus b) := BinaryOperator.sum_eq a b
  rw [← hsum]
  exact Pass.bind_of_eq_some he

/-- Every addition is made of two scalars and gives a scalar again. -/
theorem eval_foldl_add {e : Expr} {a : Scalar}
    (he : e.eval world call frame p = some (.ready (.scalar a), p)) (rest : List Scalar) :
    (rest.foldl (fun e b => .binary .add e (.literal (.value (.scalar b)))) e).eval
      world call frame p = some (.ready (.scalar (rest.foldl plus a)), p) := by
  induction rest generalizing e a with
  | nil => exact he
  | cons b rest ih => exact ih (eval_add world call frame he b)

/-- Additions nested to the left come to a scalar and ask nothing of the host. Without a text among
the operands it is the sum of their numbers. With one it is a text: what the operands before the
first text contribute, and then the texts of all others, numbers and truth values included. -/
theorem eval_leftSum (p : Progress String σ) (first : Scalar) (rest : List Scalar) :
    ∃ total, (leftSum first rest).eval world call frame p = some (.ready (.scalar total), p) ∧
      ((∀ a ∈ first :: rest, a.isText = false) → rest ≠ [] →
        total = .number (numberSum first rest)) ∧
      ∀ before s after, first :: rest = before ++ .text s :: after →
        (∀ a ∈ before, a.isText = false) →
        total = .text (leadingText before ++ joinedText (.text s :: after)) := by
  refine ⟨rest.foldl plus first, eval_foldl_add world call frame rfl rest, ?_, ?_⟩
  · intro h hne
    obtain ⟨hfirst, hrest⟩ := List.forall_mem_cons.mp h
    exact foldl_plus_numbers hfirst hrest hne
  · intro before s after hsplit h
    exact foldl_plus_mixed hsplit h

end

/-- Two truth values are added before the first text and one is joined after it. -/
theorem eval_leftSum_of_truth_values :
    (leftSum (.truth true) [.truth true, .text "x", .truth true]).eval World.loading
        (fun _ _ _ => failure) ⟨"", .host ⟨"cell", 0⟩, []⟩ ⟨true, [], []⟩ =
      some (.ready (.text "2xtrue"), ⟨true, [], []⟩) ∧
    (leftSum (.truth true) [.truth true]).eval World.loading
        (fun _ _ _ => failure) ⟨"", .host ⟨"cell", 0⟩, []⟩ ⟨true, [], []⟩ =
      some (.ready (.number (Binary64.ofNat 2)), ⟨true, [], []⟩) := by
  constructor
  · obtain ⟨total, heval, -, htext⟩ := eval_leftSum World.loading (fun _ _ _ => failure)
      ⟨"", .host ⟨"cell", 0⟩, []⟩ ⟨true, [], []⟩ (.truth true) [.truth true, .text "x", .truth true]
    have htotal := htext [.truth true, .truth true] "x" [.truth true] rfl (by decide)
    have hvalue : leadingText [.truth true, .truth true] ++
        joinedText [.text "x", .truth true] = "2xtrue" := by decide +kernel
    rw [heval, htotal, hvalue]
    rfl
  · obtain ⟨total, heval, hnumber, -⟩ := eval_leftSum World.loading (fun _ _ _ => failure)
      ⟨"", .host ⟨"cell", 0⟩, []⟩ ⟨true, [], []⟩ (.truth true) [.truth true]
    have htotal := hnumber (by decide) (List.cons_ne_nil _ _)
    have hvalue : numberSum (.truth true) [.truth true] = Binary64.ofNat 2 := by decide +kernel
    rw [heval, htotal, hvalue]
    rfl

end Expr

end ResumableFormulas
