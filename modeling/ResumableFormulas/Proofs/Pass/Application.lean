import ResumableFormulas.Proofs.Pass.Coercion

/-! # Applications

An application has three parts, one after another. The value in function position is coerced, once.
Then the arguments are run in order, as long as they are ready. Only then is it decided whether
there is a function to be called or the fallback has to do; so whatever is suspended wins over the
fallback, and nothing is run after it.
-/
namespace ResumableFormulas.Pass

variable {O σ : Type}

/-- Computations that are run one after another and are all ready: their values, and the progress
from before to after them. -/
inductive Pulled :
    List (Pass O σ (Suspendable Value)) → Progress O σ → List Value → Progress O σ → Prop where
  | nil (p : Progress O σ) : Pulled [] p [] p
  | cons {x : Pass O σ (Suspendable Value)} {xs : List (Pass O σ (Suspendable Value))}
      {p p₁ q : Progress O σ} {v : Value} {values : List Value}
      (hx : x p = some (.ready v, p₁)) (hxs : Pulled xs p₁ values q) :
      Pulled (x :: xs) p (v :: values) q

/-- The course of an application, with its outcome if it has one. -/
inductive Applied (host : Host O σ) (origin : O) (fallback : Value) :
    Suspendable Value → List (Pass O σ (Suspendable Value)) → Progress O σ →
      Option (Suspendable Value × Progress O σ) → Prop where
  | targetSuspended (arguments : List (Pass O σ (Suspendable Value))) (p : Progress O σ) :
      Applied host origin fallback .suspended arguments p (some (.suspended, p))
  | targetPending {v : Value} {p q : Progress O σ} {r : Request}
      (hv : Coerces host origin v p (.pending r) q)
      (arguments : List (Pass O σ (Suspendable Value))) :
      Applied host origin fallback (.ready v) arguments p (some (.suspended, q))
  | argumentSuspended {v t : Value} {p p₁ p₂ q : Progress O σ}
      {before : List (Pass O σ (Suspendable Value))} {values : List Value}
      {x : Pass O σ (Suspendable Value)} (hv : Coerces host origin v p (.value t) p₁)
      (hbefore : Pulled before p₁ values p₂) (hx : x p₂ = some (.suspended, q))
      (after : List (Pass O σ (Suspendable Value))) :
      Applied host origin fallback (.ready v) (before ++ x :: after) p (some (.suspended, q))
  | argumentEndless {v t : Value} {p p₁ p₂ : Progress O σ}
      {before : List (Pass O σ (Suspendable Value))} {values : List Value}
      {x : Pass O σ (Suspendable Value)} (hv : Coerces host origin v p (.value t) p₁)
      (hbefore : Pulled before p₁ values p₂) (hx : x p₂ = none)
      (after : List (Pass O σ (Suspendable Value))) :
      Applied host origin fallback (.ready v) (before ++ x :: after) p none
  | called {v : Value} {f : Handle} {p p₁ p₂ q : Progress O σ}
      {arguments : List (Pass O σ (Suspendable Value))} {values : List Value}
      {r : Suspendable Value} (hv : Coerces host origin v p (.value (.function f)) p₁)
      (harguments : Pulled arguments p₁ values p₂)
      (hcall : host.call f origin values (p₂.after [.called f origin values] p₂.host) =
        some (r, q)) :
      Applied host origin fallback (.ready v) arguments p
        (some (r, q.after [.returned f r] q.host))
  | callEndless {v : Value} {f : Handle} {p p₁ p₂ : Progress O σ}
      {arguments : List (Pass O σ (Suspendable Value))} {values : List Value}
      (hv : Coerces host origin v p (.value (.function f)) p₁)
      (harguments : Pulled arguments p₁ values p₂)
      (hcall : host.call f origin values (p₂.after [.called f origin values] p₂.host) = none) :
      Applied host origin fallback (.ready v) arguments p none
  | fallback {v t : Value} {p p₁ q : Progress O σ}
      {arguments : List (Pass O σ (Suspendable Value))} {values : List Value}
      (hv : Coerces host origin v p (.value t) p₁) (ht : ∀ f, t ≠ .function f)
      (harguments : Pulled arguments p₁ values q) :
      Applied host origin fallback (.ready v) arguments p (some (.ready fallback, q))

theorem record_eq_after {e : Event O} (he : e.requests = []) (p : Progress O σ) :
    record e p = some ((), p.after [e] p.host) := by
  simp [Progress.after, he]

theorem bind_of_eq_none {α β : Type} {x : Pass O σ α} {p : Progress O σ} (h : x p = none)
    (f : α → Pass O σ β) : (x >>= f) p = none := by
  change (x p).bind (fun s => f s.1 s.2) = none
  rw [h]
  rfl

theorem collect_cons_of_ready {x : Pass O σ (Suspendable Value)}
    {xs : List (Pass O σ (Suspendable Value))} {p p₁ : Progress O σ} {v : Value}
    (hx : x p = some (.ready v, p₁)) :
    Suspendable.collect (x :: xs) p =
      (do return (← Suspendable.collect xs).map (v :: ·) : Pass O σ _) p₁ :=
  bind_of_eq_some hx

theorem Pulled.collect_eq {xs : List (Pass O σ (Suspendable Value))} {p q : Progress O σ}
    {values : List Value} (h : Pulled xs p values q) :
    Suspendable.collect xs p = some (.ready values, q) := by
  induction h with
  | nil p => rfl
  | cons hx hxs ih => rw [collect_cons_of_ready hx, bind_of_eq_some ih]; rfl

/-- What is collected of computations that are ready up to one that is not. -/
theorem Pulled.collect_append_eq {before : List (Pass O σ (Suspendable Value))}
    {p q : Progress O σ} {values : List Value} (h : Pulled before p values q)
    {xs : List (Pass O σ (Suspendable Value))} {outcome : Option (Progress O σ)}
    (hxs : Suspendable.collect xs q = outcome.map fun p => (.suspended, p)) :
    Suspendable.collect (before ++ xs) p = outcome.map fun p => (.suspended, p) := by
  induction h with
  | nil p => exact hxs
  | cons hx _ ih =>
    rw [List.cons_append, collect_cons_of_ready hx]
    cases outcome with
    | none => exact bind_of_eq_none (ih hxs) _
    | some p => exact bind_of_eq_some (ih hxs)

/-- Computations are all ready, or one of them is the first that is not. -/
theorem pulled_or_stopped (xs : List (Pass O σ (Suspendable Value))) (p : Progress O σ) :
    (∃ values q, Pulled xs p values q) ∨
      ∃ before x after values q, xs = before ++ x :: after ∧ Pulled before p values q ∧
        (x q = none ∨ ∃ q', x q = some (.suspended, q')) := by
  induction xs generalizing p with
  | nil => exact .inl ⟨[], p, .nil p⟩
  | cons x xs ih =>
    match hx : x p with
    | none => exact .inr ⟨[], x, xs, [], p, rfl, .nil p, .inl hx⟩
    | some (.suspended, q) => exact .inr ⟨[], x, xs, [], p, rfl, .nil p, .inr ⟨q, hx⟩⟩
    | some (.ready v, p₁) =>
      rcases ih p₁ with ⟨values, q, h⟩ | ⟨before, y, after, values, q, rfl, h, hy⟩
      · exact .inl ⟨v :: values, q, .cons hx h⟩
      · exact .inr ⟨x :: before, y, after, v :: values, q, rfl, .cons hx h, hy⟩

section

variable {host : Host O σ} {origin : O} {fallback : Value}

theorem apply_of_coerces {v : Value} {p p₁ : Progress O σ} {a : Answer Value}
    (hv : Coerces host origin v p a p₁) (arguments : List (Pass O σ (Suspendable Value))) :
    apply host origin (.ready v) arguments fallback p =
      (a.outcome.andThen fun target => do
        (← Suspendable.collect arguments).andThen (applyTo host origin fallback target)) p₁ := by
  rw [apply_eq, Suspendable.andThen_ready, bind_of_eq_some (callee_of_coerces hv)]

theorem apply_of_pulled {v t : Value} {p p₁ p₂ : Progress O σ}
    {arguments : List (Pass O σ (Suspendable Value))} {values : List Value}
    (hv : Coerces host origin v p (.value t) p₁) (harguments : Pulled arguments p₁ values p₂) :
    apply host origin (.ready v) arguments fallback p =
      applyTo host origin fallback t values p₂ := by
  rw [apply_of_coerces hv, Answer.outcome, Suspendable.andThen_ready,
    bind_of_eq_some harguments.collect_eq, Suspendable.andThen_ready]

theorem apply_of_stopped (outcome : Option (Progress O σ)) {v t : Value} {p p₁ p₂ : Progress O σ}
    {before : List (Pass O σ (Suspendable Value))} {values : List Value}
    {x : Pass O σ (Suspendable Value)}
    (hv : Coerces host origin v p (.value t) p₁) (hbefore : Pulled before p₁ values p₂)
    (hx : x p₂ = outcome.map fun p => (.suspended, p))
    (after : List (Pass O σ (Suspendable Value))) :
    apply host origin (.ready v) (before ++ x :: after) fallback p =
      outcome.map fun p => (.suspended, p) := by
  have hcollect : Suspendable.collect (x :: after) p₂ = outcome.map fun p => (.suspended, p) := by
    cases outcome with
    | none => exact bind_of_eq_none hx _
    | some q => exact bind_of_eq_some hx
  rw [apply_of_coerces hv, Answer.outcome, Suspendable.andThen_ready]
  cases outcome with
  | none => exact bind_of_eq_none (hbefore.collect_append_eq hcollect) _
  | some q => exact bind_of_eq_some (hbefore.collect_append_eq hcollect)

theorem invoke_eq (f : Handle) (values : List Value) (p : Progress O σ) :
    invoke host origin f values p =
      (host.call f origin values (p.after [.called f origin values] p.host)).map fun (r, q) =>
        (r, q.after [.returned f r] q.host) := by
  rw [invoke, bind_of_eq_some (record_eq_after rfl p)]
  cases h : host.call f origin values (p.after [.called f origin values] p.host) with
  | none => exact bind_of_eq_none h _
  | some outcome =>
    obtain ⟨r, q⟩ := outcome
    rw [bind_of_eq_some h, bind_of_eq_some (record_eq_after rfl q)]
    rfl

theorem Applied.apply_eq {f : Suspendable Value} {arguments : List (Pass O σ (Suspendable Value))}
    {p : Progress O σ} {outcome : Option (Suspendable Value × Progress O σ)}
    (h : Applied host origin fallback f arguments p outcome) :
    apply host origin f arguments fallback p = outcome := by
  cases h with
  | targetSuspended => rw [Pass.apply_eq]; rfl
  | targetPending hv => exact apply_of_coerces hv arguments
  | argumentSuspended hv hbefore hx after =>
    exact apply_of_stopped (some _) hv hbefore hx after
  | argumentEndless hv hbefore hx after =>
    exact apply_of_stopped none hv hbefore hx after
  | called hv harguments hcall =>
    rw [apply_of_pulled hv harguments, applyTo, invoke_eq, hcall]
    rfl
  | callEndless hv harguments hcall =>
    rw [apply_of_pulled hv harguments, applyTo, invoke_eq, hcall]
    rfl
  | @fallback v t _ _ q _ values hv ht harguments =>
    rw [apply_of_pulled hv harguments]
    cases t with
    | scalar | object => rfl
    | function f => exact absurd rfl (ht f)

/-- Every application has a course. -/
theorem exists_applied (host : Host O σ) (origin : O) (fallback : Value) (f : Suspendable Value)
    (arguments : List (Pass O σ (Suspendable Value))) (p : Progress O σ) :
    ∃ outcome, Applied host origin fallback f arguments p outcome := by
  cases f with
  | suspended => exact ⟨_, .targetSuspended arguments p⟩
  | ready v =>
    obtain ⟨a, p₁, hv⟩ := Coerces.exists host origin v p
    cases a with
    | pending r => exact ⟨_, .targetPending hv arguments⟩
    | value t =>
      rcases pulled_or_stopped arguments p₁ with
        ⟨values, p₂, harguments⟩ | ⟨before, x, after, values, p₂, rfl, hbefore, hx | ⟨q, hx⟩⟩
      · cases t with
        | scalar s => exact ⟨_, .fallback hv nofun harguments⟩
        | object o => exact ⟨_, .fallback hv nofun harguments⟩
        | function g =>
          cases hcall : host.call g origin values (p₂.after [.called g origin values] p₂.host) with
          | none => exact ⟨_, .callEndless hv harguments hcall⟩
          | some outcome => exact ⟨_, .called hv harguments hcall⟩
      · exact ⟨_, .argumentEndless hv hbefore hx after⟩
      · exact ⟨_, .argumentSuspended hv hbefore hx after⟩

end

/-- An application takes its course and no other, whether it comes to an end or not. -/
theorem apply_eq_iff_applied (host : Host O σ) (origin : O) (f : Suspendable Value)
    (arguments : List (Pass O σ (Suspendable Value))) (fallback : Value) (p : Progress O σ)
    (outcome : Option (Suspendable Value × Progress O σ)) :
    apply host origin f arguments fallback p = outcome ↔
      Applied host origin fallback f arguments p outcome := by
  constructor
  · rintro rfl
    obtain ⟨outcome, h⟩ := exists_applied host origin fallback f arguments p
    rw [h.apply_eq]
    exact h
  · exact Applied.apply_eq

end ResumableFormulas.Pass
