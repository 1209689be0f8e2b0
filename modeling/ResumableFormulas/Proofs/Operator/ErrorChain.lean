import ResumableFormulas.Proofs.Operator.Lifting

/-! # Errors in chains of steps

An error answers every reading but that of its text with itself. So it passes unchanged through
readings, operators and conditions, in any number and order, and what the operators are made of is
never run. Only an operand that is still missing, or one to the left that is no scalar, could come
before it.
-/
namespace ResumableFormulas.Pass

variable {O σ : Type}

/-- Something that is done to a value. -/
inductive Step (O σ : Type) where
  | read (property : Property) (fallback : Value)
  | unary (operator : UnaryOperator)
  | mapped (f : Scalar → Pass O σ Scalar)
  /-- An operator with the value on its left. -/
  | before (guarded : Bool) (f : Scalar → Scalar → Pass O σ Value) (right : Value)
  /-- An operator with the value on its right. -/
  | behind (guarded : Bool) (f : Scalar → Scalar → Pass O σ Value) (left : Value)
  /-- A condition that is no scalar, handed back. -/
  | condition

namespace Step

/-- The step with the operation it is made of, if any, replaced by one that does not end. -/
def disarmed : Step O σ → Step O σ
  | read property fallback => read property fallback
  | unary operator => unary operator
  | mapped _ => mapped fun _ => failure
  | before guarded _ right => before guarded (fun _ _ => failure) right
  | behind guarded _ left => behind guarded (fun _ _ => failure) left
  | condition => condition

variable (host : Host O σ) (origin : O)

def run (step : Step O σ) (v : Value) : Pass O σ (Suspendable Value) :=
  match step with
  | read property fallback => readProperty host origin (.ready v) property fallback
  | unary operator => Pass.unary host operator origin v
  | mapped f => liftUnary host f origin v
  | before guarded f right => liftBinary host (guardedIf guarded f) origin v right
  | behind guarded f left => liftBinary host (guardedIf guarded f) origin left v
  | condition => do
    (← conditionOf host origin (.ready v)).andThen fun
      | .error other => return .ready other
      | .ok _ => failure

/-- Steps that an error passes in a state of the host, and the state that they leave: all but the
reading of a text and operators with the wrong other operand. -/
def Spares (step : Step O σ) (s s' : σ) : Prop :=
  match step with
  | read property _ => property ≠ .asText ∧ s' = s
  | unary _ | mapped _ | condition => s' = s
  | before _ _ right => ∃ v, operandAnswer host origin right s = (.value v, s')
  | behind _ _ left => ∃ a, operandAnswer host origin left s = (.value (.scalar a), s')

end Step

/-- One step after another. -/
def runSteps (host : Host O σ) (origin : O) :
    List (Step O σ) → Value → Pass O σ (Suspendable Value)
  | [], v => return .ready v
  | step :: steps, v => do (← step.run host origin v).andThen (runSteps host origin steps)

/-- Steps that an error passes one after another. -/
def SpareAll (host : Host O σ) (origin : O) : List (Step O σ) → σ → Prop
  | [], _ => True
  | step :: steps, s => ∃ s', step.Spares host origin s s' ∧ SpareAll host origin steps s'

theorem error_read_of_ne {e : ErrorObject} {property : Property} (h : property ≠ .asText) :
    e.read property = .object (.error e) := by
  cases property with
  | asText => exact absurd rfl h
  | asScalar | field name => rfl

section

variable {host : Host O σ} {origin : O}

/-- The reading of an error adds no request. -/
theorem ask_error (host : Host O σ) (origin : O) (e : ErrorObject) (property : Property)
    (p : Progress O σ) :
    ∃ q, ask host origin (.error e) property p = some (.ready (e.read property), q) ∧
      q.pending = p.pending ∧ q.host = p.host := by
  refine ⟨_, ask_eq_after host origin (.error e) property p, ?_, rfl⟩
  simp [Progress.after, answerOf, Event.requests, Answer.requests]

/-- An error passes a step that spares it, whatever the step is made of. -/
theorem Step.run_error {step : Step O σ} {p : Progress O σ} {s' : σ}
    (h : step.Spares host origin p.host s') (e : ErrorObject) :
    ∃ q, step.run host origin (.object (.error e)) p = some (.ready (.object (.error e)), q) ∧
      step.disarmed.run host origin (.object (.error e)) p =
        some (.ready (.object (.error e)), q) ∧
      q.pending = p.pending ∧ q.host = s' := by
  have herror : Coerces host origin (.object (.error e)) p _ _ := .error e p
  have hpending := herror.pending_eq.trans (List.append_nil _)
  cases step with
  | read property fallback =>
    obtain ⟨hproperty, rfl⟩ := h
    obtain ⟨q, hread, hpending, hhost⟩ := ask_error host origin e property p
    rw [error_read_of_ne hproperty] at hread
    exact ⟨q, hread, hread, hpending, hhost⟩
  | unary operator =>
    obtain rfl := h
    cases operator with
    | plus => exact ⟨p, rfl, rfl, rfl, rfl⟩
    | minus =>
      have hminus := liftUnary_of_coerces (fun a => return a.negated) herror
      exact ⟨_, hminus, hminus, hpending, rfl⟩
  | mapped f =>
    obtain rfl := h
    exact ⟨_, liftUnary_of_coerces f herror, liftUnary_of_coerces _ herror, hpending, rfl⟩
  | before guarded f right =>
    obtain ⟨v, hv⟩ := h
    obtain ⟨q, hright, rfl⟩ := exists_coerces_of_operandAnswer (p := p.after _ p.host) hv
    have hlift (f : Scalar → Scalar → Pass O σ Value) :
        liftBinary host (guardedIf guarded f) origin (.object (.error e)) right p =
          some (.ready (.object (.error e)), q) :=
      liftBinary_of_coerces herror hright
    have hsame : q.pending = p.pending := by
      rw [hright.pending_eq, hpending]
      exact List.append_nil _
    exact ⟨q, hlift _, hlift _, hsame, rfl⟩
  | behind guarded f left =>
    obtain ⟨a, ha⟩ := h
    obtain ⟨p₁, hleft, rfl⟩ := exists_coerces_of_operandAnswer ha
    have herror : Coerces host origin (.object (.error e)) p₁ _ _ := .error e p₁
    have hlift (f : Scalar → Scalar → Pass O σ Value) :
        liftBinary host (guardedIf guarded f) origin left (.object (.error e)) p =
          some (.ready (.object (.error e)), _) :=
      liftBinary_of_coerces hleft herror
    have hsame := herror.pending_eq
    rw [hleft.pending_eq] at hsame
    simp only [Answer.requests, List.append_nil] at hsame
    exact ⟨_, hlift _, hlift _, hsame, rfl⟩
  | condition =>
    obtain rfl := h
    have hcondition := bind_of_eq_some
      (f := fun r : Suspendable (Except Value Bool) => r.andThen fun
        | .error other => (return .ready other : Pass O σ (Suspendable Value))
        | .ok _ => failure) (conditionOf_of_coerces herror)
    exact ⟨_, hcondition, hcondition, hpending, rfl⟩

/-- An error passes every chain of steps that spare it one after another. -/
theorem runSteps_disarmed_error {steps : List (Step O σ)} {p : Progress O σ}
    (h : SpareAll host origin steps p.host) (e : ErrorObject) :
    ∃ q, runSteps host origin steps (.object (.error e)) p =
        some (.ready (.object (.error e)), q) ∧
      runSteps host origin (steps.map Step.disarmed) (.object (.error e)) p =
        some (.ready (.object (.error e)), q) ∧
      q.pending = p.pending := by
  induction steps generalizing p with
  | nil => exact ⟨p, rfl, rfl, rfl⟩
  | cons step steps ih =>
    obtain ⟨s', hstep, hsteps⟩ := h
    obtain ⟨p₁, hrun, hdisarmed, hpending, rfl⟩ := Step.run_error hstep e
    obtain ⟨q, hruns, hdisarmeds, hpendings⟩ := ih hsteps
    refine ⟨q, ?_, ?_, hpendings.trans hpending⟩
    · rw [runSteps, bind_of_eq_some hrun, Suspendable.andThen_ready, hruns]
    · rw [List.map_cons, runSteps, bind_of_eq_some hdisarmed, Suspendable.andThen_ready,
        hdisarmeds]

/-- An error comes out of a chain of steps as it went in. Nothing that the steps are made of is run
and no request is added, and the error still answers for its text with its message. -/
theorem runSteps_error {steps : List (Step O σ)} {p : Progress O σ}
    (h : SpareAll host origin steps p.host) (e : ErrorObject) :
    ∃ q, runSteps host origin steps (.object (.error e)) p =
        some (.ready (.object (.error e)), q) ∧
      runSteps host origin (steps.map Step.disarmed) (.object (.error e)) p =
        some (.ready (.object (.error e)), q) ∧
      q.pending = p.pending ∧
      (∃ q', textOf host origin (.ready (.object (.error e))) q = some (.ready e.message, q') ∧
        q'.pending = p.pending) ∧
      ∀ fallback, ∃ q', readProperty host origin (.ready (.object (.error e))) .asText fallback q =
        some (.ready (.text e.message), q') ∧ q'.pending = p.pending := by
  obtain ⟨q, hrun, hdisarmed, hpending⟩ := runSteps_disarmed_error h e
  obtain ⟨q', hask, hpending', -⟩ := ask_error host origin e .asText q
  exact ⟨q, hrun, hdisarmed, hpending,
    ⟨q', bind_of_eq_some hask, hpending'.trans hpending⟩,
    fun _ => ⟨q', hask, hpending'.trans hpending⟩⟩

end

/-- A host whose objects answer for the number of readings so far. -/
def tallying : Host Unit Nat where
  read _ _ _ n := (.value (.number (Binary64.ofNat n)), n + 1)
  call _ _ _ := failure

def tallyingCell : Value := .object (.host ⟨"cell", 0⟩)

/-- Steps of every kind, with operations that do not end. -/
def obstacles : List (Step Unit Nat) :=
  [.read (.field "AsString") tallyingCell, .before true (fun _ _ => failure) tallyingCell,
    .mapped fun _ => failure, .behind false (fun _ _ => failure) tallyingCell, .unary .minus,
    .before false (fun _ _ => failure) (.function ⟨"f", 0⟩), .condition, .unary .plus]

theorem runSteps_error_of_obstacles :
    ∃ q q', runSteps tallying () obstacles (.object (.error (.custom ⟨"e", 0⟩ "no such cell")))
        ⟨0, [⟨.name "a", 0⟩], []⟩ =
        some (.ready (.object (.error (.custom ⟨"e", 0⟩ "no such cell"))), q) ∧
      q.pending = [⟨.name "a", 0⟩] ∧
      textOf tallying () (.ready (.object (.error (.custom ⟨"e", 0⟩ "no such cell")))) q =
        some (.ready "no such cell", q') := by
  have hspared : SpareAll tallying () obstacles 0 :=
    ⟨0, ⟨nofun, rfl⟩, 1, ⟨_, rfl⟩, 1, rfl, 2, ⟨_, rfl⟩, 2, rfl, 2, ⟨_, rfl⟩, 2, rfl, 2, rfl,
      trivial⟩
  obtain ⟨q, hrun, -, hpending, ⟨q', htext, -⟩, -⟩ :=
    runSteps_error (p := ⟨0, [⟨.name "a", 0⟩], []⟩) hspared (.custom ⟨"e", 0⟩ "no such cell")
  exact ⟨q, q', hrun, hpending, htext⟩

end ResumableFormulas.Pass
