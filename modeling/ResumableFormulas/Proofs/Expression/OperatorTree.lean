import ResumableFormulas.Expression.Evaluation
import ResumableFormulas.Proofs.Pass.Journal

/-! # Trees of operators

Operators applied to operators, down to values. An operand comes to a scalar or fails with an error,
and an operator takes its operands from left to right up to the first one that fails. The operators
on values agree with this although they coerce both operands before they look at either, and coerce
what other operators gave: a scalar or an error stays what it is. A plus, which coerces nothing, may
leave an object or a function for the operator above it.
-/
namespace ResumableFormulas
open Pass

namespace Pass

variable {O σ α β : Type}

/-- A computation that comes to an end from every stable host, with a result as described, without
adding a request, and with the host stable again. -/
def Settles (stable : σ → Prop) (post : α → Prop) (x : Pass O σ α) : Prop :=
  ∀ p, stable p.host → ∃ a q, x p = some (a, q) ∧ post a ∧ q.pending = p.pending ∧ stable q.host

namespace Settles

variable {stable : σ → Prop} {post : α → Prop} {post' : β → Prop}

theorem pure {a : α} (h : post a) : Settles stable post (pure a : Pass O σ α) :=
  fun p hp => ⟨a, p, rfl, h, rfl, hp⟩

theorem bind {x : Pass O σ α} {f : α → Pass O σ β} (hx : Settles stable post x)
    (hf : ∀ a, post a → Settles stable post' (f a)) : Settles stable post' (x >>= f) := by
  intro p hp
  obtain ⟨a, p₁, hxe, ha, hpending, hp₁⟩ := hx p hp
  obtain ⟨b, q, hfe, hb, hpending', hq⟩ := hf a ha p₁ hp₁
  exact ⟨b, q, bind_eq_some_iff.mpr ⟨a, p₁, hxe, hfe⟩, hb, hpending'.trans hpending, hq⟩

end Settles

end Pass

namespace Value

/-- The value for an outcome. -/
def ofOutcome : Except ErrorObject Scalar → Value
  | .ok s => .scalar s
  | .error e => .object (.error e)

/-- What a value that is no object of the host comes to as an operand. -/
inductive Yields : Value → Except ErrorObject Scalar → Prop where
  | scalar (s : Scalar) : Yields (.scalar s) (.ok s)
  | function (f : Handle) : Yields (.function f) (.error (.builtin .functionOperand))
  | error (e : ErrorObject) : Yields (.object (.error e)) (.error e)

/-- What a value comes to as an operand, given what the objects of the host come to. -/
def operand (stands : Handle → Except ErrorObject Scalar) : Value → Except ErrorObject Scalar
  | .scalar s => .ok s
  | .function _ => .error (.builtin .functionOperand)
  | .object (.error e) => .error e
  | .object (.host h) => stands h

theorem yields_ofOutcome (r : Except ErrorObject Scalar) : (ofOutcome r).Yields r := by
  cases r with
  | ok s => exact .scalar s
  | error e => exact .error e

theorem Yields.operand_eq {v : Value} {r : Except ErrorObject Scalar} (h : v.Yields r)
    (stands : Handle → Except ErrorObject Scalar) : v.operand stands = r := by
  cases h <;> rfl

end Value

namespace BinaryOperator

/-- What an operator makes of two scalars if it does not fail. -/
def primitive : BinaryOperator → Scalar → Scalar → Scalar
  | add, .text s, b => .text (s ++ b.toText)
  | add, a, .text t => .text (a.toText ++ t)
  | add, a, b => .number (a.toNumber + b.toNumber)
  | subtract, a, b => .number (a.toNumber - b.toNumber)
  | multiply, a, b => .number (a.toNumber * b.toNumber)
  | divide, a, b => .number (a.toNumber / b.toNumber)
  | equal, a, b => .truth (a.equal b)
  | different, a, b => .truth (!a.equal b)
  | less, a, b => .truth ((a.order b).any Ordering.isLT)
  | greater, a, b => .truth ((a.order b).any Ordering.isGT)
  | atMost, a, b => .truth ((a.order b).any Ordering.isLE)
  | atLeast, a, b => .truth ((a.order b).any Ordering.isGE)

/-- An operator between two scalars. Only a division can fail. -/
def outcome (operator : BinaryOperator) (a b : Scalar) : Except ErrorObject Scalar :=
  if operator = divide ∧ isZeroDivisor b then .error (.builtin .divisionByZero)
  else .ok (operator.primitive a b)

theorem sum_eq (a b : Scalar) : sum a b = .scalar (primitive add a b) := by
  cases a <;> cases b <;> rfl

theorem onScalars_eq (operator : BinaryOperator) (a b : Scalar) :
    operator.onScalars a b = .ofOutcome (operator.outcome a b) := by
  cases operator with
  | add => exact sum_eq a b
  | divide =>
    cases h : isZeroDivisor b with
    | true => simp [onScalars, outcome, h, Value.ofOutcome, Value.builtin]
    | false => simp [onScalars, outcome, h, Value.ofOutcome, numeric, Value.number, primitive]
  | _ => rfl

end BinaryOperator

/-- Operators applied to one another and to values. -/
inductive OperatorTree where
  | leaf (v : Value)
  | unary (operator : UnaryOperator) (x : OperatorTree)
  | binary (operator : BinaryOperator) (x y : OperatorTree)

namespace OperatorTree

def expr : OperatorTree → Expr
  | leaf v => .literal (.value v)
  | unary operator x => .unary operator x.expr
  | binary operator x y => .binary operator x.expr y.expr

/-- The objects of the host at the leaves. -/
def objects : OperatorTree → List Handle
  | leaf (.object (.host h)) => [h]
  | leaf _ => []
  | unary _ x => x.objects
  | binary _ x y => x.objects ++ y.objects

/-- Trees with an operator that coerces at the root, and a scalar or an error by itself. -/
def IsCoerced : OperatorTree → Prop
  | leaf (.scalar _) | leaf (.object (.error _)) => True
  | leaf (.function _) | leaf (.object (.host _)) => False
  | unary .plus _ => False
  | unary .minus _ | binary _ _ _ => True

/-- The error of an outcome that is a failure. -/
def failure? : Except ErrorObject Scalar → Option ErrorObject
  | .ok _ => none
  | .error e => some e

section

variable (stands : Handle → Except ErrorObject Scalar)

/-- What a tree comes to as an operand, from left to right up to the first failure. -/
def outcome : OperatorTree → Except ErrorObject Scalar
  | leaf v => v.operand stands
  | unary .plus x => x.outcome
  | unary .minus x => do return (← x.outcome).negated
  | binary operator x y => do
    let a ← x.outcome
    let b ← y.outcome
    operator.outcome a b

/-- All the errors in a tree, those of the operands before that of their operator. -/
def failures : OperatorTree → List ErrorObject
  | leaf v => (failure? (v.operand stands)).toList
  | unary _ x => x.failures
  | binary operator x y =>
    x.failures ++ y.failures ++
      match x.outcome stands, y.outcome stands with
      | .ok a, .ok b => (failure? (operator.outcome a b)).toList
      | _, _ => []

/-- The value of a tree. -/
def value : OperatorTree → Value
  | leaf v => v
  | unary .plus x => x.value
  | unary .minus x => .ofOutcome ((unary .minus x).outcome stands)
  | binary operator x y => .ofOutcome ((binary operator x y).outcome stands)

/-- A tree fails with the first of its errors. -/
theorem head?_failures (t : OperatorTree) :
    (t.failures stands).head? = failure? (t.outcome stands) := by
  induction t with
  | leaf v => exact Option.head?_toList
  | unary operator x ih =>
    rw [failures, ih]
    cases operator with
    | plus => rfl
    | minus => rw [outcome]; cases x.outcome stands <;> rfl
  | binary operator x y ihx ihy =>
    rw [failures, List.head?_append, List.head?_append, ihx, ihy, outcome]
    cases x.outcome stands with
    | error e => rfl
    | ok a =>
      cases y.outcome stands with
      | error e => rfl
      | ok b => exact Option.head?_toList

theorem value_operand (t : OperatorTree) : (t.value stands).operand stands = t.outcome stands := by
  induction t with
  | leaf v => rfl
  | unary operator x ih =>
    cases operator with
    | plus => exact ih
    | minus => exact (Value.yields_ofOutcome _).operand_eq stands
  | binary operator x y => exact (Value.yields_ofOutcome _).operand_eq stands

theorem IsCoerced.value_eq {t : OperatorTree} (h : t.IsCoerced) :
    t.value stands = .ofOutcome (t.outcome stands) := by
  match t, h with
  | leaf (.scalar _), _ | leaf (.object (.error _)), _ => rfl
  | unary .minus _, _ | binary _ _ _, _ => rfl

end

end OperatorTree

namespace World

variable {σ : Type}

/-- In every stable state of the host an object answers for its scalar, and the answer comes to `r`.
-/
def Comes (world : World σ) (stable : σ → Prop) (origin : String) (h : Handle)
    (r : Except ErrorObject Scalar) : Prop :=
  ∀ s, stable s → ∃ v, (world.read h .asScalar origin s).1 = .value v ∧ v.Yields r ∧
    stable (world.read h .asScalar origin s).2

/-- A value that comes to what it stands for, whenever it is coerced. -/
def IsOperand (world : World σ) (stable : σ → Prop) (origin : String)
    (stands : Handle → Except ErrorObject Scalar) (v : Value) : Prop :=
  ∀ h, v = .object (.host h) → world.Comes stable origin h (stands h)

variable {world : World σ} {stable : σ → Prop} {origin : String}
  {stands : Handle → Except ErrorObject Scalar}

theorem isOperand_ofOutcome (r : Except ErrorObject Scalar) :
    world.IsOperand stable origin stands (.ofOutcome r) := by
  intro h hr
  cases r <;> cases hr

section

variable (call : Caller σ)

theorem settles_coerce {v : Value} (hv : world.IsOperand stable origin stands v) :
    Settles stable (fun r => ∃ w, r = .ready w ∧ w.Yields (v.operand stands))
      (coerce (world.host call) origin v) := by
  match v, hv with
  | .scalar s, _ => exact .pure ⟨_, rfl, .scalar s⟩
  | .function f, _ => exact .pure ⟨_, rfl, .function f⟩
  | .object (.error e), _ =>
    intro p hp
    exact ⟨_, _, ask_apply _ origin _ .asScalar p, ⟨_, rfl, .error e⟩, List.append_nil _, hp⟩
  | .object (.host h), hv =>
    intro p hp
    obtain ⟨w, hread, hw, hstable⟩ := hv h rfl p.host hp
    refine ⟨_, _, ask_apply _ origin _ .asScalar p, ⟨w, ?_, hw⟩, ?_, hstable⟩
    · simp [answerOf, host, hread, Answer.outcome]
    · simp [answerOf, host, hread, Answer.requests]

theorem settles_negation {v : Value} (hv : world.IsOperand stable origin stands v) :
    Settles stable (· = .ready (.ofOutcome (do return (← v.operand stands).negated)))
      (unary (world.host call) .minus origin v) := by
  refine (settles_coerce call hv).bind ?_
  generalize v.operand stands = a
  rintro _ ⟨w, rfl, hw⟩
  cases hw with
  | scalar s => exact .pure rfl
  | function f => exact .pure rfl
  | error e => exact .pure rfl

theorem settles_binary (operator : BinaryOperator) {v w : Value}
    (hv : world.IsOperand stable origin stands v) (hw : world.IsOperand stable origin stands w) :
    Settles stable (· = .ready (.ofOutcome (do
        let a ← v.operand stands
        let b ← w.operand stands
        operator.outcome a b)))
      (binary (world.host call) operator origin v w) := by
  refine (settles_coerce call hv).bind ?_
  generalize v.operand stands = a
  rintro _ ⟨l, rfl, hl⟩
  refine (settles_coerce call hw).bind ?_
  generalize w.operand stands = b
  rintro _ ⟨r, rfl, hr⟩
  -- Both operands are coerced by now; what is left is which of them decides.
  cases hl with
  | error e => exact .pure rfl
  | function f => exact .pure rfl
  | scalar a =>
    cases hr with
    | error e => exact .pure rfl
    | function f => exact .pure rfl
    | scalar b => exact .pure (congrArg Suspendable.ready (operator.onScalars_eq a b))

/-- An operator before the value of a tree gives the value of the larger tree, an operand again. -/
theorem settles_unary_value (operator : UnaryOperator) {x : OperatorTree}
    (hx : world.IsOperand stable origin stands (x.value stands)) :
    world.IsOperand stable origin stands ((OperatorTree.unary operator x).value stands) ∧
      Settles stable (· = .ready ((OperatorTree.unary operator x).value stands))
        (unary (world.host call) operator origin (x.value stands)) := by
  cases operator with
  | plus => exact ⟨hx, .pure rfl⟩
  | minus =>
    have hop := settles_negation call hx
    rw [OperatorTree.value_operand] at hop
    exact ⟨isOperand_ofOutcome _, hop⟩

theorem settles_binary_value (operator : BinaryOperator) {x y : OperatorTree}
    (hx : world.IsOperand stable origin stands (x.value stands))
    (hy : world.IsOperand stable origin stands (y.value stands)) :
    world.IsOperand stable origin stands ((OperatorTree.binary operator x y).value stands) ∧
      Settles stable (· = .ready ((OperatorTree.binary operator x y).value stands))
        (binary (world.host call) operator origin (x.value stands) (y.value stands)) := by
  have hop := settles_binary call operator hx hy
  rw [OperatorTree.value_operand, OperatorTree.value_operand] at hop
  exact ⟨isOperand_ofOutcome _, hop⟩

/-- The value of a tree is found without a request, and it is an operand again. -/
theorem settles_tree (frame : Frame) (t : OperatorTree)
    (h : ∀ o ∈ t.objects, world.Comes stable frame.origin o (stands o)) :
    world.IsOperand stable frame.origin stands (t.value stands) ∧
      Settles stable (· = .ready (t.value stands)) (t.expr.eval world call frame) := by
  induction t with
  | leaf v =>
    refine ⟨?_, .pure rfl⟩
    rintro o rfl
    exact h o List.mem_cons_self
  | unary operator x ih =>
    obtain ⟨hx, hxe⟩ := ih h
    obtain ⟨hoperand, hop⟩ := settles_unary_value call operator hx
    refine ⟨hoperand, hxe.bind ?_⟩
    rintro _ rfl
    exact hop
  | binary operator x y ihx ihy =>
    obtain ⟨hx, hxe⟩ := ihx fun o ho => h o (List.mem_append_left _ ho)
    obtain ⟨hy, hye⟩ := ihy fun o ho => h o (List.mem_append_right _ ho)
    obtain ⟨hoperand, hop⟩ := settles_binary_value call operator hx hy
    refine ⟨hoperand, hxe.bind ?_⟩
    rintro _ rfl
    refine hye.bind ?_
    rintro _ rfl
    exact hop

end

/-- Operators are applied as if each operand were a scalar or an exception. A tree comes to what its
operands come to from left to right, to the first of its errors if there is any, and that is its
value if an operator that coerces is at the root. Nothing is requested. -/
theorem eval_operatorTree (call : Caller σ) (frame : Frame) (t : OperatorTree)
    (h : ∀ o ∈ t.objects, world.Comes stable frame.origin o (stands o))
    {p : Progress String σ} (hp : stable p.host) :
    (∃ v q, t.expr.eval world call frame p = some (.ready v, q) ∧
      (t.IsCoerced → v = .ofOutcome (t.outcome stands)) ∧ v.operand stands = t.outcome stands ∧
      q.pending = p.pending ∧ stable q.host) ∧
    ∀ e, t.outcome stands = .error e ↔ (t.failures stands).head? = some e := by
  constructor
  · obtain ⟨-, hsettles⟩ := settles_tree call frame t h
    obtain ⟨_, q, heval, rfl, hpending, hstable⟩ := hsettles p hp
    have hcoerced : t.IsCoerced → t.value stands = .ofOutcome (t.outcome stands) :=
      OperatorTree.IsCoerced.value_eq stands
    exact ⟨t.value stands, q, heval, hcoerced, t.value_operand stands, hpending, hstable⟩
  · intro e
    rw [OperatorTree.head?_failures]
    cases t.outcome stands <;> simp [OperatorTree.failure?]

/-- A host that knows its objects once it is loaded, all of them as the text of six. -/
def loading : World Bool where
  read _ _ _ loaded :=
    (if loaded then .value (.text "6") else .pending ⟨.name "load", 0⟩, loaded)
  respond _ _ loaded := (.value (.text "6"), loaded)
  mint loaded := (0, loaded)

/-- An object over a negative zero, with a function subtracted from it. -/
def dividing : OperatorTree :=
  .binary .subtract
    (.binary .divide (.unary .plus (.leaf (.object (.host ⟨"cell", 0⟩))))
      (.leaf (.number (Float.ofBits 0x8000000000000000))))
    (.unary .plus (.leaf (.function ⟨"f", 0⟩)))

theorem eval_operatorTree_of_dividing :
    (∃ q, dividing.expr.eval loading (fun _ _ _ => failure) ⟨"", .host ⟨"cell", 0⟩, []⟩
        ⟨true, [], []⟩ = some (.ready (.builtin .divisionByZero), q) ∧ q.pending = []) ∧
      (dividing.failures fun _ => .ok (.text "6")) =
        [.builtin .divisionByZero, .builtin .functionOperand] := by
  have hcomes : ∀ o ∈ dividing.objects, loading.Comes (· = true) "" o (.ok (.text "6")) := by
    rintro o - _ rfl
    exact ⟨_, rfl, .scalar _, rfl⟩
  obtain ⟨⟨v, q, heval, hvalue, -, hpending, -⟩, -⟩ := eval_operatorTree (fun _ _ _ => failure)
    ⟨"", .host ⟨"cell", 0⟩, []⟩ dividing hcomes (p := ⟨true, [], []⟩) rfl
  have hv : v = .builtin .divisionByZero := hvalue trivial
  exact ⟨⟨q, hv ▸ heval, hpending⟩, by rfl⟩

end World

end ResumableFormulas
