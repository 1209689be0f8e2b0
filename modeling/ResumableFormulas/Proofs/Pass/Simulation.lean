import ResumableFormulas.Proofs.Pass.Journal

/-! # Passes that lag behind

Of two hosts one has values for some readings that the other one is not ready to answer. A pass of
the lower host either is level with the pass of the upper one, with the same value and the same
journal, or it lags behind: it is suspended, and what it has asked is a part of what the other pass
asks, in the same order. Lagging behind is a correspondence, as what an upper pass does on its own
makes no difference to which host is below.
-/
namespace ResumableFormulas

/-- What a pass asks of its host. -/
inductive Inquiry where
  | read (target : Object) (property : Property)
  | call (function : Handle) (arguments : List Value)
deriving DecidableEq

def Event.inquiry {O : Type} : Event O → Option Inquiry
  | .read target property _ _ => some (.read target property)
  | .called function _ arguments => some (.call function arguments)
  | .returned _ _ | .applied _ _ => none

/-- The inquiries of a journal in their order. -/
def inquiries {O : Type} (journal : List (Event O)) : List Inquiry :=
  journal.filterMap Event.inquiry

theorem inquiries_append {O : Type} (events events' : List (Event O)) :
    inquiries (events ++ events') = inquiries events ++ inquiries events' :=
  List.filterMap_append

namespace Pass

variable {O σ σ' V α α' β β' γ δ : Type}

/-- How what a lower computation gives and writes down compares to an upper one. -/
inductive Lags : Suspendable α → List (Event O) → Suspendable α → List (Event O) → Prop where
  | level {a : α} {events : List (Event O)} : Lags (.ready a) events (.ready a) events
  | behind {r : Suspendable α} {events events' : List (Event O)}
      (h : (inquiries events).Sublist (inquiries events')) : Lags .suspended events r events'

namespace Lags

variable {r : Suspendable α} {r' : Suspendable α} {e e' : List (Event O)}

theorem sublist (h : Lags r e r' e') : (inquiries e).Sublist (inquiries e') := by
  cases h with
  | level => exact List.Sublist.refl _
  | behind h => exact h

theorem of_ready {a : α} (h : Lags (.ready a) e r' e') : r' = .ready a ∧ e' = e := by
  cases h with
  | level => exact ⟨rfl, rfl⟩

theorem append (h : Lags r e r' e') (events : List (Event O)) :
    Lags r (events ++ e) r' (events ++ e') := by
  cases h with
  | level => exact .level
  | behind h =>
    rw [← List.append_sublist_append_left (inquiries events)] at h
    exact .behind (by simpa only [inquiries_append] using h)

end Lags

/-- If the upper one of two computations ends, then so does the lower one, and they compare like
`post`. -/
def Follows (below : σ → σ' → Prop) (post : α → List (Event O) → α' → List (Event O) → Prop)
    (x : Pass O σ α) (x' : Pass O σ' α') : Prop :=
  ∀ p p', below p.host p'.host → ∀ r' q', x' p' = some (r', q') → ∃ r q events events',
    x p = some (r, q) ∧ below q.host q'.host ∧ q.journal = p.journal ++ events ∧
    q'.journal = p'.journal ++ events' ∧ post r events r' events'

namespace Follows

variable {below : σ → σ' → Prop}

theorem mono {post post' : α → List (Event O) → α' → List (Event O) → Prop} {x : Pass O σ α}
    {x' : Pass O σ' α'} (hx : Follows below post x x')
    (h : ∀ r events r' events', post r events r' events' → post' r events r' events') :
    Follows below post' x x' := by
  intro p p' hbelow r' q' hx'
  obtain ⟨r, q, events, events', hxe, hq, hj, hj', hpost⟩ := hx p p' hbelow r' q' hx'
  exact ⟨r, q, events, events', hxe, hq, hj, hj', h r events r' events' hpost⟩

theorem pure {post : α → List (Event O) → α' → List (Event O) → Prop} {a : α} {a' : α'}
    (h : post a [] a' []) : Follows below post (pure a) (pure a') := by
  intro p p' hbelow r' q' hx'
  simp only [pure_apply, Option.some.injEq, Prod.mk.injEq] at hx'
  obtain ⟨rfl, rfl⟩ := hx'
  exact ⟨a, p, [], [], rfl, hbelow, by simp, by simp, h⟩

theorem bind {mid : α → List (Event O) → α' → List (Event O) → Prop}
    {post : β → List (Event O) → β' → List (Event O) → Prop} {x : Pass O σ α} {x' : Pass O σ' α'}
    {f : α → Pass O σ β} {f' : α' → Pass O σ' β'} (hx : Follows below mid x x')
    (hf : ∀ a e a' e', mid a e a' e' →
      Follows below (fun r d r' d' => post r (e ++ d) r' (e' ++ d')) (f a) (f' a')) :
    Follows below post (x >>= f) (x' >>= f') := by
  intro p p' hbelow r' q' h
  obtain ⟨a', p₁', hx', hf'⟩ := bind_eq_some_iff.mp h
  obtain ⟨a, p₁, e, e', hxe, hbelow₁, hj₁, hj₁', hmid⟩ := hx p p' hbelow a' p₁' hx'
  obtain ⟨r, q, d, d', hfe, hq, hj, hj', hpost⟩ := hf a e a' e' hmid p₁ p₁' hbelow₁ r' q' hf'
  exact ⟨r, q, e ++ d, e' ++ d', bind_eq_some_iff.mpr ⟨a, p₁, hxe, hfe⟩, hq,
    by rw [hj, hj₁, List.append_assoc], by rw [hj', hj₁', List.append_assoc], hpost⟩

theorem record (e e' : Event O) :
    Follows below (fun _ d _ d' => d = [e] ∧ d' = [e']) (record e) (record e') := by
  intro p p' hbelow r' q' h
  simp only [record_apply, Option.some.injEq, Prod.mk.injEq] at h
  obtain ⟨-, rfl⟩ := h
  exact ⟨(), _, [e], [e'], rfl, hbelow, rfl, rfl, rfl, rfl⟩

/-- A suspended computation follows whatever the upper one does. -/
theorem halt {x' : Pass O σ' α'} {fits : (σ → Prop) → Event O → Prop}
    (hx' : Accounted (fun s' s => below s s') fits x') :
    Follows below (fun r d _ _ => r = .suspended ∧ d = [])
      (Pure.pure (.suspended : Suspendable α)) x' := by
  intro p p' hbelow r' q' h
  obtain ⟨hview, events, hj, -⟩ := hx' p' r' q' h
  exact ⟨.suspended, p, [], events, rfl, (congrFun hview p.host).mpr hbelow, by simp, hj, rfl, rfl⟩

theorem ask {host : Host O σ} {host' : Host O σ'} {origin : O} {target : Object}
    {property : Property}
    (hvalue : ∀ s s', below s s' → ∀ v, (answerOf host origin target property s).1 = .value v →
      (answerOf host' origin target property s').1 = .value v)
    (hbelow : ∀ s s', below s s' → below (answerOf host origin target property s).2
      (answerOf host' origin target property s').2) :
    Follows below Lags (ask host origin target property) (ask host' origin target property) := by
  intro p p' hp r' q' h
  rw [ask_apply] at h
  simp only [Option.some.injEq, Prod.mk.injEq] at h
  obtain ⟨rfl, rfl⟩ := h
  refine ⟨_, _, [_], [_], ask_apply host origin target property p, hbelow _ _ hp, rfl, rfl, ?_⟩
  cases ha : (answerOf host origin target property p.host).1 with
  | value v =>
    rw [hvalue _ _ hp v ha]
    exact .level
  | pending r => exact .behind (List.Sublist.refl _)

theorem report {x : Pass O σ (Suspendable Value)} {x' : Pass O σ' (Suspendable Value)}
    (hx : Follows below Lags x x') (function : Handle) (origin : O) (arguments : List Value) :
    Follows below Lags (Pass.report function origin arguments x)
      (Pass.report function origin arguments x') := by
  refine (record _ _).bind fun _ d _ d' hcall => hx.bind fun r e r' e' hlags =>
    (record _ _).bind fun _ c _ c' hreturn => pure ?_
  obtain ⟨rfl, rfl⟩ := hcall
  obtain ⟨rfl, rfl⟩ := hreturn
  cases hlags with
  | level => exact .level
  | behind h => exact .behind (by simpa [inquiries, List.filterMap_cons, Event.inquiry] using h)

theorem interleave {x : Pass O σ (Suspendable α)} {x' : Pass O σ' (Suspendable α)}
    {y : Pass O σ (Suspendable β)} {y' : Pass O σ' (Suspendable β)}
    {f : α → Pass O σ (Suspendable γ)} {f' : α → Pass O σ' (Suspendable γ)}
    {k : γ → β → Pass O σ (Suspendable δ)} {k' : γ → β → Pass O σ' (Suspendable δ)}
    {fits : (σ → Prop) → Event O → Prop} {origin : O} (h : Tolerates fits origin)
    (hx : Follows below Lags x x') (hy : Follows below Lags y y')
    (hf : ∀ a, Follows below Lags (f a) (f' a))
    (hk : ∀ c b, Follows below Lags (k c b) (k' c b))
    (hf' : ∀ a, Accounted (fun s' s => below s s') fits (f' a))
    (hk' : ∀ c b, Accounted (fun s' s => below s s') fits (k' c b)) :
    Follows below Lags (Pass.interleave x y f k) (Pass.interleave x' y' f' k') := by
  have hupper := Accounted.closed (fun s' s => below s s') h
  refine hx.bind fun r e r' e' hr => hy.bind fun s d s' d' hs => ?_
  cases hr with
  | behind he =>
    simp only [Suspendable.andThen_suspended, pure_bind, Suspendable.andThenBoth_suspended_left]
    have hrest : Accounted (fun s' s => below s s') fits
        (do (← r'.andThen f').andThenBoth s' k') :=
      hupper.bind (hupper.andThen hf' r') fun c => hupper.andThenBoth hk' c s'
    refine (halt hrest).mono ?_
    rintro _ _ t' c' ⟨rfl, rfl⟩
    refine .behind ?_
    simp only [inquiries_append]
    exact he.append (hs.sublist.append (List.nil_sublist _))
  | @level a =>
    simp only [Suspendable.andThen_ready]
    refine (hf a).bind fun t c t' c' ht => ?_
    -- the lower computation goes on only if neither value is held back
    have hstop : Follows below
        (fun u b u' b' => Lags u (e ++ (d ++ (c ++ b))) u' (e ++ (d' ++ (c' ++ b'))))
        (Pure.pure (.suspended : Suspendable δ)) (t'.andThenBoth s' k') := by
      refine (halt (hupper.andThenBoth hk' t' s')).mono ?_
      rintro _ _ u' b' ⟨rfl, rfl⟩
      refine .behind ?_
      simp only [inquiries_append]
      exact (List.Sublist.refl _).append
        (hs.sublist.append (ht.sublist.append (List.nil_sublist _)))
    cases ht with
    | behind _ => simpa only [Suspendable.andThenBoth_suspended_left] using hstop
    | level =>
      cases hs with
      | behind _ => simpa only [Suspendable.andThenBoth_suspended_right] using hstop
      | level => exact (hk _ _).mono fun u b u' b' hu => ((hu.append c).append d).append e

end Follows

theorem tolerates_all (origin : O) : Tolerates (fun (_ : V) (_ : Event O) => True) origin :=
  ⟨fun _ _ _ => trivial, fun _ _ _ => trivial, fun _ _ _ => trivial⟩

theorem accounted_closed (view : σ → V) (origin : O) :
    Closed origin (fun {α} (x : Pass O σ α) => Accounted view (fun _ _ => True) x) :=
  Accounted.closed view (tolerates_all origin)

/-- Computations of which the lower one lags behind. -/
def lagging (below : σ → σ' → Prop) (origin : O) : Correspondence origin σ σ' where
  rel x x' := Accounted (fun s' s => below s s') (fun _ _ => True) x' ∧ Follows below Lags x x'
  ready a := ⟨(accounted_closed _ origin).pure _, .pure .level⟩
  interleave hx hy hf hk := by
    have hf' := fun a => (hf a).1
    have hk' := fun c b => (hk c b).1
    exact ⟨(accounted_closed _ origin).interleave hx.1 hy.1 hf' hk',
      .interleave (tolerates_all origin) hx.2 hy.2 (fun a => (hf a).2) (fun c b => (hk c b).2)
        hf' hk'⟩
  report function arguments _ _ hx :=
    ⟨(accounted_closed _ origin).report hx.1 function arguments,
      hx.2.report function origin arguments⟩
  applied operation operands a := by
    refine ⟨(accounted_closed _ origin).applied_ready operation operands a,
      (Follows.record _ _).bind fun _ _ _ _ h => .pure ?_⟩
    obtain ⟨rfl, rfl⟩ := h
    exact .level
  failure := by
    refine ⟨(accounted_closed _ origin).failure, ?_⟩
    intro p p' hbelow r' q' h
    simp at h

end Pass

end ResumableFormulas
