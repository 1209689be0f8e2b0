import ResumableFormulas.Proofs.Operator.Lifting
import ResumableFormulas.Proofs.Pass.Context

/-! # Operands, conditions and functions to be called

A value is coerced where it is an operand, a condition or in function position, and in each of these
places in a way of its own. The ways come to the same: one reading of an object and none of anything
else, the same requests, the same coerced value. So the places never contradict each other about a
value. What is a scalar to an operator is a condition, what is an object to it is an error to the
condition, and a function, which an operator refuses, is what an application calls.
-/
namespace ResumableFormulas.Pass

variable {O σ : Type}

/-- The readings by which a value is coerced. -/
def coercingReads (origin : O) (v : Value) (a : Answer Value) : List (Event O) :=
  match v with
  | .object o => [.read o .asScalar origin a]
  | .scalar _ | .function _ => []

/-- The coercion of a value, told by what is answered for it: the readings are all that is entered
into the journal, and a pending answer is all that is added to the requests. -/
def coercion (host : Host O σ) (origin : O) (v : Value) : Pass O σ (Suspendable Value) := fun p =>
  let (a, s) := operandAnswer host origin v p.host
  some (a.outcome, p.after (coercingReads origin v a) s)

/-- A coerced value as the result of an operation that leaves scalars as they are. -/
def asOperand : Value → Value
  | .function _ => .builtin .functionOperand
  | v => v

section

variable {host : Host O σ} {origin : O} {v : Value} {p q : Progress O σ} {a : Answer Value}

theorem coercion_of_coerces (h : Coerces host origin v p a q) :
    coercion host origin v p = some (a.outcome, q) := by
  cases h with
  | scalar s => simp [coercion, operandAnswer, coercingReads]
  | function f => simp [coercion, operandAnswer, coercingReads]
  | error e => rfl
  | host h =>
    simp only [coercion, operandAnswer, answerOf, coercingReads]
    rw [h]

end

theorem coerce_eq_coercion (host : Host O σ) (origin : O) (v : Value) :
    coerce host origin v = coercion host origin v := by
  funext p
  obtain ⟨a, q, h⟩ := Coerces.exists host origin v p
  rw [coerce_of_coerces h, coercion_of_coerces h]

theorem callee_eq_coercion (host : Host O σ) (origin : O) (v : Value) :
    callee host origin v = coercion host origin v := by
  funext p
  obtain ⟨a, q, h⟩ := Coerces.exists host origin v p
  rw [callee_of_coerces h, coercion_of_coerces h]

theorem conditionOf_eq_coercion (host : Host O σ) (origin : O) (v : Value) :
    conditionOf host origin (.ready v) = (do
      return (← coercion host origin v).map asCondition) := by
  funext p
  obtain ⟨a, q, h⟩ := Coerces.exists host origin v p
  rw [conditionOf_of_coerces h, bind_of_eq_some (coercion_of_coerces h), pure_apply]

theorem liftUnary_eq_coercion (host : Host O σ) (f : Scalar → Pass O σ Scalar) (origin : O)
    (v : Value) :
    liftUnary host f origin v = (do (← coercion host origin v).mapM (onOperand f)) := by
  funext p
  obtain ⟨a, q, h⟩ := Coerces.exists host origin v p
  rw [liftUnary_of_coerces f h, bind_of_eq_some (coercion_of_coerces h)]

theorem liftBinary_eq_coercion (host : Host O σ) (f : Scalar → Scalar → Pass O σ Value) (origin : O)
    (left right : Value) :
    liftBinary host f origin left right = (do
      let l ← coercion host origin left
      let r ← coercion host origin right
      l.andThenBoth r (onOperands f)) := by
  rw [← coerce_eq_coercion, ← coerce_eq_coercion]
  rfl

theorem apply_eq_coercion (host : Host O σ) (origin : O) (v : Value)
    (arguments : List (Pass O σ (Suspendable Value))) (fallback : Value) :
    apply host origin (.ready v) arguments fallback = (do
      (← coercion host origin v).andThen fun target => do
        (← Suspendable.collect arguments).andThen (applyTo host origin fallback target)) := by
  rw [apply_eq, Suspendable.andThen_ready, callee_eq_coercion]

/-- The operations that look at a value coerce it first, and all in one way. Of the value itself
nothing but what the coercion comes to has any part in what follows. -/
structure CoercedAlike (host : Host O σ) (origin : O) (v : Value) : Prop where
  operand (f : Scalar → Pass O σ Scalar) :
    liftUnary host f origin v = do (← coercion host origin v).mapM (onOperand f)
  left (f : Scalar → Scalar → Pass O σ Value) (w : Value) :
    liftBinary host f origin v w = do
      let l ← coercion host origin v
      let r ← coercion host origin w
      l.andThenBoth r (onOperands f)
  right (f : Scalar → Scalar → Pass O σ Value) (w : Value) :
    liftBinary host f origin w v = do
      let l ← coercion host origin w
      let r ← coercion host origin v
      l.andThenBoth r (onOperands f)
  condition :
    conditionOf host origin (.ready v) = do return (← coercion host origin v).map asCondition
  target (arguments : List (Pass O σ (Suspendable Value))) (fallback : Value) :
    apply host origin (.ready v) arguments fallback = do
      (← coercion host origin v).andThen fun target => do
        (← Suspendable.collect arguments).andThen (applyTo host origin fallback target)

theorem coercedAlike (host : Host O σ) (origin : O) (v : Value) : CoercedAlike host origin v where
  operand f := liftUnary_eq_coercion host f origin v
  left f w := liftBinary_eq_coercion host f origin v w
  right f w := liftBinary_eq_coercion host f origin w v
  condition := conditionOf_eq_coercion host origin v
  target := apply_eq_coercion host origin v

/-- A condition `x` and the result `y` of an operation that leaves scalars as they are, both of one
value that is coerced to `c`, tell the same of it. -/
structure Consistent (c : Suspendable Value) (x : Suspendable (Except Value Bool))
    (y : Suspendable Value) : Prop where
  suspended : x = .suspended ↔ y = .suspended
  truth (b : Bool) : x = .ready (.ok b) ↔ ∃ s, y = .ready (.scalar s) ∧ s.toTruth = b
  object (o : Object) : x = .ready (.error (.object o)) ↔
    y = .ready (.object o) ∧ ∀ g, c ≠ .ready (.function g)
  function (g : Handle) : x = .ready (.error (.function g)) ↔
    y = .ready (.builtin .functionOperand) ∧ c = .ready (.function g)

theorem consistent (c : Suspendable Value) :
    Consistent c (c.map asCondition) (c.map asOperand) := by
  match c with
  | .suspended => constructor <;> simp
  | .ready (.scalar s) => constructor <;> simp [asCondition, asOperand]
  | .ready (.object o) => constructor <;> simp [asCondition, asOperand]
  | .ready (.function g) => constructor <;> simp [asCondition, asOperand, Value.builtin]

section

variable {host : Host O σ} {origin : O} {v : Value} {p q : Progress O σ} {c : Suspendable Value}

theorem liftUnary_pure_of_coercion (h : coercion host origin v p = some (c, q)) :
    liftUnary host pure origin v p = some (c.map asOperand, q) := by
  rw [liftUnary_eq_coercion, bind_of_eq_some h]
  match c with
  | .suspended | .ready (.scalar _) | .ready (.object _) | .ready (.function _) => rfl

theorem apply_nil_of_coercion (h : coercion host origin v p = some (c, q)) (fallback : Value) :
    apply host origin (.ready v) [] fallback p =
      (c.andThen fun target => applyTo host origin fallback target []) q := by
  rw [apply_eq_coercion, bind_of_eq_some h]
  rfl

/-- An application to no arguments calls a function, and does not end if calls do not, iff the value
in function position is coerced to one. -/
theorem apply_nil_mute_eq_none_iff (h : coercion host origin v p = some (c, q)) (fallback : Value) :
    apply (mute host) origin (.ready v) [] fallback p = none ↔ ∃ g, c = .ready (.function g) := by
  -- Functions have no part in a coercion, so it goes for the muted host as well.
  have hmute : coercion (mute host) origin v p = some (c, q) := h
  rw [apply_nil_of_coercion hmute]
  match c with
  | .suspended | .ready (.scalar _) | .ready (.object _) => exact iff_of_false nofun nofun
  | .ready (.function g) => exact iff_of_true rfl ⟨g, rfl⟩

end

/-- Operands, conditions and values in function position are coerced alike: by one reading if they
are objects and none otherwise, with the same requests and to the same value, and all else follows
from that value. So a condition, an operation that leaves scalars as they are and an application to
no arguments agree about a value. The application calls a function iff the operation refuses one. -/
theorem coercing_operations_agree (host : Host O σ) (origin : O) (v : Value) :
    CoercedAlike host origin v ∧ ∀ p, ∃ c x y q,
      coercion host origin v p = some (c, q) ∧
      conditionOf host origin (.ready v) p = some (x, q) ∧
      liftUnary host pure origin v p = some (y, q) ∧
      Consistent c x y ∧ ∀ fallback,
        (apply (mute host) origin (.ready v) [] fallback p = none ↔
          ∃ g, y = .ready (.builtin .functionOperand) ∧ c = .ready (.function g)) ∧
        ∀ g, c = .ready (.function g) →
          apply host origin (.ready v) [] fallback p = invoke host origin g [] q := by
  refine ⟨coercedAlike host origin v, fun p => ?_⟩
  obtain ⟨a, q, h⟩ := Coerces.exists host origin v p
  have hcoercion := coercion_of_coerces h
  refine ⟨_, _, _, q, hcoercion, conditionOf_of_coerces h, liftUnary_pure_of_coercion hcoercion,
    consistent _, fun fallback => ⟨?_, ?_⟩⟩
  · rw [apply_nil_mute_eq_none_iff hcoercion]
    refine exists_congr fun g => ⟨fun hg => ⟨?_, hg⟩, And.right⟩
    rw [hg]
    rfl
  · intro g hg
    rw [apply_nil_of_coercion hcoercion, hg]
    rfl

-- The result of an operation alone does not tell a function from the error about functions, which
-- is an object, and which an application does not call.
example (host : Host O σ) (origin : O) (g : Handle) (p : Progress O σ) :
    (liftUnary host pure origin (.function g) p).map Prod.fst =
      (liftUnary host pure origin (.builtin .functionOperand) p).map Prod.fst := rfl

end ResumableFormulas.Pass
