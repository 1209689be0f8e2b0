import ResumableFormulas.Proofs.Pass.Journal

/-! # Coercions

What is done to a value before an operator, a condition or an application looks at it. A scalar or a
function stands for itself and nothing is asked. An object is asked once, for its scalar, and the
answer is what counts even if it is an object again. An error answers with itself.
-/
namespace ResumableFormulas

/-- The progress after some events that lead the host to the given state. -/
def Progress.after {O σ : Type} (p : Progress O σ) (events : List (Event O)) (host : σ) :
    Progress O σ :=
  ⟨host, p.pending ++ events.flatMap Event.requests, p.journal ++ events⟩

@[simp] theorem Progress.after_nil {O σ : Type} (p : Progress O σ) : p.after [] p.host = p := by
  simp [after]

namespace Pass

variable {O σ : Type}

/-- What is answered for a value that is coerced, and the progress from before to after it. -/
inductive Coerces (host : Host O σ) (origin : O) :
    Value → Progress O σ → Answer Value → Progress O σ → Prop where
  | scalar (s : Scalar) (p : Progress O σ) :
      Coerces host origin (.scalar s) p (.value (.scalar s)) p
  | function (f : Handle) (p : Progress O σ) :
      Coerces host origin (.function f) p (.value (.function f)) p
  | error (e : ErrorObject) (p : Progress O σ) :
      Coerces host origin (.object (.error e)) p (.value (.object (.error e)))
        (p.after [.read (.error e) .asScalar origin (.value (.object (.error e)))] p.host)
  | host {handle : Handle} {p : Progress O σ} {a : Answer Value} {s : σ}
      (h : host.read handle .asScalar origin p.host = (a, s)) :
      Coerces host origin (.object (.host handle)) p a
        (p.after [.read (.host handle) .asScalar origin a] s)

theorem ask_eq_after (host : Host O σ) (origin : O) (target : Object) (property : Property)
    (p : Progress O σ) :
    ask host origin target property p =
      some ((answerOf host origin target property p.host).1.outcome,
        p.after [.read target property origin (answerOf host origin target property p.host).1]
          (answerOf host origin target property p.host).2) := by
  simp [ask_apply, Progress.after, Event.requests]

/-- A coerced value in the place of a condition. -/
def asCondition : Value → Except Value Bool
  | .scalar s => .ok s.toTruth
  | v => .error v

/-- What is answered for a value that is coerced in a state of the host, and the state after it. -/
def operandAnswer (host : Host O σ) (origin : O) (v : Value) (s : σ) : Answer Value × σ :=
  match v with
  | .object o => answerOf host origin o .asScalar s
  | .scalar _ | .function _ => (.value v, s)

section

variable {host : Host O σ} {origin : O} {v : Value} {p q : Progress O σ} {a : Answer Value}

theorem exists_coerces_of_operandAnswer {s : σ} (h : operandAnswer host origin v p.host = (a, s)) :
    ∃ q, Coerces host origin v p a q ∧ q.host = s := by
  match v with
  | .object (.host handle) => exact ⟨_, .host h, rfl⟩
  | .scalar c =>
    cases h
    exact ⟨_, .scalar c p, rfl⟩
  | .function f =>
    cases h
    exact ⟨_, .function f p, rfl⟩
  | .object (.error e) =>
    cases h
    exact ⟨_, .error e p, rfl⟩

theorem Coerces.exists (host : Host O σ) (origin : O) (v : Value) (p : Progress O σ) :
    ∃ a q, Coerces host origin v p a q := by
  match v with
  | .scalar s => exact ⟨_, _, .scalar s p⟩
  | .function f => exact ⟨_, _, .function f p⟩
  | .object (.error e) => exact ⟨_, _, .error e p⟩
  | .object (.host handle) => exact ⟨_, _, .host rfl⟩

theorem Coerces.pending_eq (h : Coerces host origin v p a q) :
    q.pending = p.pending ++ a.requests := by
  cases h <;> simp [Progress.after, Event.requests, Answer.requests]

theorem coerce_of_coerces (h : Coerces host origin v p a q) :
    coerce host origin v p = some (a.outcome, q) := by
  cases h with
  | scalar | function => rfl
  | error e p => exact ask_eq_after host origin (.error e) .asScalar p
  | host h =>
    refine (ask_eq_after host origin (.host _) .asScalar p).trans ?_
    rw [answerOf, h]

/-- A value in function position is coerced like an operand. -/
theorem callee_of_coerces (h : Coerces host origin v p a q) :
    callee host origin v p = some (a.outcome, q) := by
  rw [← coerce_of_coerces h]
  cases v <;> rfl

theorem conditionOf_of_coerces (h : Coerces host origin v p a q) :
    conditionOf host origin (.ready v) p = some (a.outcome.map asCondition, q) :=
  bind_of_eq_some (coerce_of_coerces h)

end

end Pass

end ResumableFormulas
