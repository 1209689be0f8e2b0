import ResumableFormulas.Proofs.Pass.Coercion

/-! # Lifted operations

A lifted operation coerces its left operand and then its right one, whatever comes of the left one.
If either is pending the whole is suspended, with the requests of both recorded. Otherwise the
operation is run once if there are two scalars, and if not the two operands alone decide the result:
an object on the left, a function, an object on the right, in this order. A guard against zero
divisors takes the place of the operation where the divisor is zero, and is nowhere else noticed.
-/
namespace ResumableFormulas.Pass

variable {O σ : Type}

/-- An operation on two scalars, guarded against zero divisors or not. -/
def guardedIf (guarded : Bool) (f : Scalar → Scalar → Pass O σ Value) :
    Scalar → Scalar → Pass O σ Value :=
  if guarded then unlessZeroDivisor f else f

/-- What an operation on two scalars makes of two coerced operands. -/
def onOperands (f : Scalar → Scalar → Pass O σ Value) :
    Value → Value → Pass O σ (Suspendable Value)
  | .object o, _ => return .ready (.object o)
  | .function _, _ => return .ready (.builtin .functionOperand)
  | .scalar _, .function _ => return .ready (.builtin .functionOperand)
  | .scalar _, .object o => return .ready (.object o)
  | .scalar a, .scalar b => do return .ready (← f a b)

/-- What an operation on one scalar makes of a coerced operand. -/
def onOperand (f : Scalar → Pass O σ Scalar) : Value → Pass O σ Value
  | .object o => return .object o
  | .function _ => return .builtin .functionOperand
  | .scalar a => do return .scalar (← f a)

/-- What a lifted operation comes to, with its outcome if it has one. -/
inductive Lifted (host : Host O σ) (guarded : Bool) (f : Scalar → Scalar → Pass O σ Value)
    (origin : O) (left right : Value) (p : Progress O σ) :
    Option (Suspendable Value × Progress O σ) → Prop where
  | suspended {a b : Answer Value} {p₁ q : Progress O σ} (hl : Coerces host origin left p a p₁)
      (hr : Coerces host origin right p₁ b q) (h : a.requests ++ b.requests ≠ []) :
      Lifted host guarded f origin left right p (some (.suspended, q))
  | leftObject {o : Object} {w : Value} {p₁ q : Progress O σ}
      (hl : Coerces host origin left p (.value (.object o)) p₁)
      (hr : Coerces host origin right p₁ (.value w) q) :
      Lifted host guarded f origin left right p (some (.ready (.object o), q))
  | leftFunction {g : Handle} {w : Value} {p₁ q : Progress O σ}
      (hl : Coerces host origin left p (.value (.function g)) p₁)
      (hr : Coerces host origin right p₁ (.value w) q) :
      Lifted host guarded f origin left right p (some (.ready (.builtin .functionOperand), q))
  | rightFunction {a : Scalar} {g : Handle} {p₁ q : Progress O σ}
      (hl : Coerces host origin left p (.value (.scalar a)) p₁)
      (hr : Coerces host origin right p₁ (.value (.function g)) q) :
      Lifted host guarded f origin left right p (some (.ready (.builtin .functionOperand), q))
  | rightObject {a : Scalar} {o : Object} {p₁ q : Progress O σ}
      (hl : Coerces host origin left p (.value (.scalar a)) p₁)
      (hr : Coerces host origin right p₁ (.value (.object o)) q) :
      Lifted host guarded f origin left right p (some (.ready (.object o), q))
  | zeroDivisor {a b : Scalar} {p₁ q : Progress O σ}
      (hl : Coerces host origin left p (.value (.scalar a)) p₁)
      (hr : Coerces host origin right p₁ (.value (.scalar b)) q) (hguarded : guarded = true)
      (hzero : Binary64.isZero b.toNumber = true) :
      Lifted host guarded f origin left right p (some (.ready (.builtin .divisionByZero), q))
  | applied {a b : Scalar} {p₁ q : Progress O σ}
      (hl : Coerces host origin left p (.value (.scalar a)) p₁)
      (hr : Coerces host origin right p₁ (.value (.scalar b)) q)
      (hzero : guarded = true → Binary64.isZero b.toNumber = false) :
      Lifted host guarded f origin left right p
        ((f a b q).map fun (v, q) => (.ready v, q))

section

variable {host : Host O σ} {origin : O} {left right : Value} {p p₁ q : Progress O σ}
  {guarded : Bool} {f : Scalar → Scalar → Pass O σ Value}

theorem liftBinary_of_coerces {a b : Answer Value} (hl : Coerces host origin left p a p₁)
    (hr : Coerces host origin right p₁ b q) :
    liftBinary host f origin left right p =
      (a.outcome.andThenBoth b.outcome (onOperands f)) q := by
  rw [liftBinary, bind_of_eq_some (coerce_of_coerces hl)]
  exact bind_of_eq_some (coerce_of_coerces hr)

theorem liftUnary_of_coerces {v : Value} {a : Answer Value} (f : Scalar → Pass O σ Scalar)
    (h : Coerces host origin v p a q) :
    liftUnary host f origin v p = (a.outcome.mapM (onOperand f)) q :=
  bind_of_eq_some (coerce_of_coerces h)

theorem ready_apply (x : Pass O σ Value) (p : Progress O σ) :
    (do return .ready (← x) : Pass O σ (Suspendable Value)) p =
      (x p).map fun (v, q) => (.ready v, q) := by
  change (x p).bind (fun s => some (Suspendable.ready s.1, s.2)) = _
  cases x p <;> rfl

theorem guardedIf_of_zero {b : Scalar} (hguarded : guarded = true)
    (hzero : Binary64.isZero b.toNumber = true) (a : Scalar) :
    guardedIf guarded f a b = return .builtin .divisionByZero := by
  rw [guardedIf, if_pos hguarded, unlessZeroDivisor, BinaryOperator.isZeroDivisor, if_pos hzero]

theorem guardedIf_of_not_zero {b : Scalar}
    (h : guarded = true → Binary64.isZero b.toNumber = false) (a : Scalar) :
    guardedIf guarded f a b = f a b := by
  cases guarded with
  | false => rfl
  | true =>
    rw [guardedIf, if_pos rfl, unlessZeroDivisor, BinaryOperator.isZeroDivisor, h rfl,
      if_neg Bool.false_ne_true]

theorem Lifted.liftBinary_eq {outcome : Option (Suspendable Value × Progress O σ)}
    (h : Lifted host guarded f origin left right p outcome) :
    liftBinary host (guardedIf guarded f) origin left right p = outcome := by
  cases h with
  | @suspended a b _ _ hl hr h =>
    rw [liftBinary_of_coerces hl hr]
    cases a with
    | pending r => rfl
    | value v =>
      cases b with
      | pending r => rfl
      | value w => exact absurd rfl h
  | leftObject hl hr | leftFunction hl hr | rightFunction hl hr | rightObject hl hr =>
    exact liftBinary_of_coerces hl hr
  | zeroDivisor hl hr hguarded hzero =>
    rw [liftBinary_of_coerces hl hr]
    simp only [Answer.outcome, Suspendable.andThenBoth_ready, onOperands,
      guardedIf_of_zero hguarded hzero]
    rfl
  | applied hl hr hzero =>
    rw [liftBinary_of_coerces hl hr]
    simp only [Answer.outcome, Suspendable.andThenBoth_ready, onOperands,
      guardedIf_of_not_zero hzero]
    exact ready_apply _ _

/-- Two operands once coerced leave one way for the operation to go on. -/
theorem exists_lifted_of_coerces {a b : Answer Value} (guarded : Bool)
    (f : Scalar → Scalar → Pass O σ Value) (hl : Coerces host origin left p a p₁)
    (hr : Coerces host origin right p₁ b q) :
    ∃ outcome, Lifted host guarded f origin left right p outcome := by
  match a, b, hl, hr with
  | .pending r, _, hl, hr => exact ⟨_, .suspended hl hr (by simp [Answer.requests])⟩
  | _, .pending r, hl, hr => exact ⟨_, .suspended hl hr (by simp [Answer.requests])⟩
  | .value (.object o), .value w, hl, hr => exact ⟨_, .leftObject hl hr⟩
  | .value (.function g), .value w, hl, hr => exact ⟨_, .leftFunction hl hr⟩
  | .value (.scalar a), .value (.function g), hl, hr => exact ⟨_, .rightFunction hl hr⟩
  | .value (.scalar a), .value (.object o), hl, hr => exact ⟨_, .rightObject hl hr⟩
  | .value (.scalar a), .value (.scalar b), hl, hr =>
    by_cases h : guarded = true ∧ Binary64.isZero b.toNumber = true
    · exact ⟨_, .zeroDivisor hl hr h.1 h.2⟩
    · exact ⟨_, .applied hl hr fun hguarded => by simpa [hguarded] using h⟩

end

/-- A lifted operation is suspended iff it has met a request. -/
theorem liftBinary_suspended_iff {host : Host O σ} {f : Scalar → Scalar → Pass O σ Value}
    {origin : O} {left right : Value} {p p₁ q : Progress O σ} {a b : Answer Value}
    (hl : Coerces host origin left p a p₁) (hr : Coerces host origin right p₁ b q) :
    (∃ q', liftBinary host f origin left right p = some (.suspended, q')) ↔
      a.requests ++ b.requests ≠ [] := by
  constructor
  · rintro ⟨q', h⟩
    rw [liftBinary_of_coerces hl hr] at h
    cases a with
    | pending r => simp [Answer.requests]
    | value v =>
      cases b with
      | pending r => simp [Answer.requests]
      | value w =>
        cases v with
        | object | function => cases h
        | scalar a =>
          cases w with
          | object | function => cases h
          | scalar b =>
            obtain ⟨r, -, hr⟩ := Option.map_eq_some_iff.mp ((ready_apply (f a b) q).symm.trans h)
            cases hr
  · intro h
    have hlifted : Lifted host false f origin left right p (some (.suspended, q)) :=
      .suspended hl hr h
    exact ⟨q, hlifted.liftBinary_eq⟩

/-- A lifted operation goes one of the ways above and no other, guarded or not. Its readings are
those of the two operands, with their requests recorded from left to right, and it is suspended iff
there are any. -/
theorem liftBinary_eq_iff_lifted (host : Host O σ) (guarded : Bool)
    (f : Scalar → Scalar → Pass O σ Value) (origin : O) (left right : Value) (p : Progress O σ) :
    (∀ outcome, liftBinary host (guardedIf guarded f) origin left right p = outcome ↔
      Lifted host guarded f origin left right p outcome) ∧
    ∃ a p₁ b q, Coerces host origin left p a p₁ ∧ Coerces host origin right p₁ b q ∧
      q.pending = p.pending ++ (a.requests ++ b.requests) ∧
      ((∃ q', liftBinary host (guardedIf guarded f) origin left right p = some (.suspended, q')) ↔
        a.requests ++ b.requests ≠ []) := by
  obtain ⟨a, p₁, hl⟩ := Coerces.exists host origin left p
  obtain ⟨b, q, hr⟩ := Coerces.exists host origin right p₁
  constructor
  · intro outcome
    refine ⟨?_, Lifted.liftBinary_eq⟩
    rintro rfl
    obtain ⟨outcome, h⟩ := exists_lifted_of_coerces guarded f hl hr
    rw [h.liftBinary_eq]
    exact h
  · have hpending : q.pending = p.pending ++ (a.requests ++ b.requests) := by
      rw [hr.pending_eq, hl.pending_eq, List.append_assoc]
    exact ⟨a, p₁, b, q, hl, hr, hpending, liftBinary_suspended_iff hl hr⟩

end ResumableFormulas.Pass
