import ResumableFormulas.Proofs.Expression.Composition
import ResumableFormulas.Proofs.Pass.Journal
import ResumableFormulas.Proofs.Session.Course

/-! # Suspension comes with requests

A computation that is suspended has noted a request to be resolved, and one that has noted a request
is suspended. When computations are put together, a suspension may come late: the second operand of
an operation is computed even if the first one is suspended. So what is kept by the parts of a
computation is that a suspension is owed for every request already noted.
-/
namespace ResumableFormulas
open Pass

namespace Pass

variable {O σ α β γ δ : Type}

/-- A computation that is suspended iff it adds requests or a suspension is `owed` already. -/
def Owing (owed : Prop) (x : Pass O σ (Suspendable α)) : Prop :=
  ∀ p r q, x p = some (r, q) → ∃ added, q.pending = p.pending ++ added ∧
    (r = .suspended ↔ owed ∨ added ≠ [])

namespace Owing

variable {owed owed' : Prop}

theorem congr {x : Pass O σ (Suspendable α)} (hx : Owing owed x) (h : owed ↔ owed') :
    Owing owed' x := by
  simpa only [Owing, h] using hx

theorem pure (r : Suspendable α) : Owing (r = .suspended) (pure r : Pass O σ _) := by
  intro p r' q h
  simp only [pure_apply, Option.some.injEq, Prod.mk.injEq] at h
  obtain ⟨rfl, rfl⟩ := h
  exact ⟨[], by simp⟩

theorem ready (a : α) : Owing False (Pure.pure (.ready a) : Pass O σ _) :=
  (pure (.ready a)).congr (by simp)

/-- What is owed by a part is owed by the whole, and the rest owes what that part has left open. -/
theorem bind {x : Pass O σ (Suspendable α)} {f : Suspendable α → Pass O σ (Suspendable β)}
    (hx : Owing owed x) (ho : owed → owed')
    (hf : ∀ r, (owed → r = .suspended) → Owing (owed' ∨ r = .suspended) (f r)) :
    Owing owed' (x >>= f) := by
  intro p r q h
  obtain ⟨a, p₁, hxe, hfe⟩ := bind_eq_some_iff.mp h
  obtain ⟨added, hp, ha⟩ := hx p a p₁ hxe
  obtain ⟨added', hp', hr⟩ := hf a (fun h => ha.mpr (.inl h)) p₁ r q hfe
  refine ⟨added ++ added', by simp [hp, hp'], ?_⟩
  have happend : added ++ added' ≠ [] ↔ added ≠ [] ∨ added' ≠ [] := by
    simp only [ne_eq, List.append_eq_nil_iff, Classical.not_and_iff_not_or_not]
  rw [hr, ha, happend]
  constructor
  · rintro ((h | h | h) | h)
    · exact .inl h
    · exact .inl (ho h)
    · exact .inr (.inl h)
    · exact .inr (.inr h)
  · rintro (h | h | h)
    · exact .inl (.inl h)
    · exact .inl (.inr (.inr h))
    · exact .inr h

theorem andThen {f : α → Pass O σ (Suspendable β)} (hf : ∀ a, Owing False (f a))
    (r : Suspendable α) : Owing (r = .suspended) (r.andThen f) := by
  cases r with
  | ready a => exact (hf a).congr (by simp)
  | suspended => exact (pure .suspended).congr (by simp)

theorem andThenBoth {k : α → β → Pass O σ (Suspendable γ)} (hk : ∀ a b, Owing False (k a b))
    (r : Suspendable α) (s : Suspendable β) :
    Owing (r = .suspended ∨ s = .suspended) (r.andThenBoth s k) := by
  cases r with
  | ready a =>
    cases s with
    | ready b => exact (hk a b).congr (by simp)
    | suspended => exact (pure .suspended).congr (by simp)
  | suspended => exact (pure .suspended).congr (by simp)

theorem interleave {x : Pass O σ (Suspendable α)} {y : Pass O σ (Suspendable β)}
    {f : α → Pass O σ (Suspendable γ)} {k : γ → β → Pass O σ (Suspendable δ)}
    (hx : Owing False x) (hy : Owing False y) (hf : ∀ a, Owing False (f a))
    (hk : ∀ c b, Owing False (k c b)) : Owing False (Pass.interleave x y f k) := by
  refine hx.bind id fun r _ => hy.bind False.elim fun s _ => ?_
  -- the first value is suspended again when it is gone on with, so nothing more is owed for it
  refine (andThen hf r).bind (fun hr => .inl (.inr hr)) fun t ht => ?_
  refine (andThenBoth hk t s).congr ⟨?_, ?_⟩
  · rintro (h | h)
    · exact .inr h
    · exact .inl (.inr h)
  · rintro (((h | h) | h) | h)
    · exact h.elim
    · exact .inl (ht h)
    · exact .inr h
    · exact .inl h

theorem report {x : Pass O σ (Suspendable Value)} (hx : Owing False x) (function : Handle)
    (origin : O) (arguments : List Value) :
    Owing False (Pass.report function origin arguments x) := by
  intro p r q h
  obtain ⟨_, p₁, hcall, h⟩ := bind_eq_some_iff.mp h
  obtain ⟨a, p₂, hxe, h⟩ := bind_eq_some_iff.mp h
  obtain ⟨_, p₃, hreturn, h⟩ := bind_eq_some_iff.mp h
  simp only [record_apply, pure_apply, Option.some.injEq, Prod.mk.injEq] at hcall hreturn h
  obtain ⟨-, rfl⟩ := hcall
  obtain ⟨-, rfl⟩ := hreturn
  obtain ⟨rfl, rfl⟩ := h
  obtain ⟨added, hp, ha⟩ := hx _ a p₂ hxe
  exact ⟨added, hp, ha⟩

theorem ask (host : Host O σ) (origin : O) (target : Object) (property : Property) :
    Owing False (Pass.ask host origin target property) := by
  intro p r q h
  rw [ask_apply] at h
  simp only [Option.some.injEq, Prod.mk.injEq] at h
  obtain ⟨rfl, rfl⟩ := h
  exact ⟨_, rfl, by simp [Answer.outcome_eq_suspended_iff]⟩

theorem of_ready {x : Pass O σ α} (hx : ∀ p a q, x p = some (a, q) → q.pending = p.pending) :
    Owing False (do return .ready (← x)) := by
  intro p r q h
  obtain ⟨a, p₁, hxe, h⟩ := bind_eq_some_iff.mp h
  simp only [pure_apply, Option.some.injEq, Prod.mk.injEq] at h
  obtain ⟨rfl, rfl⟩ := h
  exact ⟨[], by simp [hx p a p₁ hxe]⟩

end Owing

/-- Computations that owe nothing. -/
def owingNothing (origin : O) : Correspondence origin σ σ where
  rel x _ := Owing False x
  ready a := .ready a
  interleave hx hy hf hk := hx.interleave hy hf hk
  report function arguments _ _ hx := hx.report function origin arguments
  applied operation operands a := by
    intro p r q h
    obtain ⟨_, p₁, hrecord, h⟩ := bind_eq_some_iff.mp h
    simp only [record_apply, pure_apply, Option.some.injEq, Prod.mk.injEq] at hrecord h
    obtain ⟨-, rfl⟩ := hrecord
    obtain ⟨rfl, rfl⟩ := h
    exact ⟨[], by simp⟩
  failure := by
    intro α p r q h
    simp at h

end Pass

namespace World

variable {σ : Type}

theorem owingNothing (world : World σ) (origin : String) (allowed : Literal → Prop) :
    Correspond (owingNothing origin) world world allowed where
  ask call _ target property := .ask (world.host call) origin target property
  literal l _ := by
    refine .of_ready fun p a q h => ?_
    simp only [Expr.realize, onHost_apply, Option.some.injEq, Prod.mk.injEq] at h
    obtain ⟨-, rfl⟩ := h
    rfl

section

variable {world : World σ} {functions : Handle → Option FunctionDefinition} {e : Expr}
  {allowed : Literal → Prop} (hf : ∀ f d, functions f = some d → d.body.Composed allowed)
  (he : e.Composed allowed)
include hf he

theorem owing_eval (depth : Nat) (frame : Frame) :
    Owing False (e.eval world (world.caller functions frame.context depth) frame) :=
  (world.owingNothing frame.origin allowed).eval hf he depth frame.context frame.arguments

theorem evaluate_suspended_iff {depth : Nat} {origin : String} {context : Object} {host : σ}
    {ev : Evaluation String σ}
    (h : (world.formula functions depth e).evaluate origin context host = some ev) :
    ev.value = .suspended ↔ ev.pending ≠ [] := by
  obtain ⟨added, hp, hr⟩ := owing_eval hf he depth ⟨origin, context, []⟩ _ _ _
    (Formula.evaluate_eq_some_iff.mp h)
  simp only [List.nil_append, false_or] at hp hr
  rw [hr, hp]

/-- Sessions of composed expressions do not stall. -/
theorem pass_ne_stalled {depth : Nat} {s : Session String σ}
    (hs : s.formula = world.formula functions depth e) {origin : String} {context : Object}
    {host : σ} {t : Turn String σ Unit} (h : s.pass origin context host = some t) (n : Nat) :
    t.result ≠ .error (.stalled n) := by
  rw [Session.pass_eq, Option.map_eq_some_iff] at h
  obtain ⟨ev, hev, rfl⟩ := h
  have hiff := evaluate_suspended_iff hf he (hs ▸ hev)
  unfold Evaluation.result
  split
  case h_1 hv hp => exact absurd hp (hiff.mp hv)
  case h_2 => simp

theorem run_ne_stalled {depth : Nat} {s : Session String σ}
    (hs : s.formula = world.formula functions depth e) {origin : String} {context : Object}
    {resolve : Session.Resolver σ} {host : σ} {t : Turn String σ Value}
    (h : s.run origin context resolve host = some t) (n : Nat) :
    t.result ≠ .error (.stalled n) := by
  obtain ⟨es, before, ev, -, hev, -, hc⟩ := Session.run_concludes h
  have hiff := evaluate_suspended_iff hf he (hs ▸ hev)
  cases hc with
  | stalled hv hp => exact absurd hp (hiff.mp hv)
  | value | unresolved | limit => simp

end

/-- A composed expression is suspended iff its evaluation adds requests, whatever was pending
before. So an evaluation has requests pending iff it has no value, and no session of such an
expression ever stalls. -/
theorem suspended_iff_requests (world : World σ) (functions : Handle → Option FunctionDefinition)
    (e : Expr) (allowed : Literal → Prop)
    (hf : ∀ f d, functions f = some d → d.body.Composed allowed) (he : e.Composed allowed) :
    (∀ depth frame p r q,
      e.eval world (world.caller functions frame.context depth) frame p = some (r, q) →
      ∃ added, q.pending = p.pending ++ added ∧ (r = .suspended ↔ added ≠ [])) ∧
    (∀ depth origin context host ev,
      (world.formula functions depth e).evaluate origin context host = some ev →
      (ev.value = .suspended ↔ ev.pending ≠ [])) ∧
    ∀ depth (s : Session String σ), s.formula = world.formula functions depth e →
      ∀ origin context host n,
        (∀ t, s.start origin context host = some t → t.result ≠ .error (.stalled n)) ∧
        (∀ t, s.resume origin context host = some t → t.result ≠ .error (.stalled n)) ∧
        ∀ resolve t, s.run origin context resolve host = some t →
          t.result ≠ .error (.stalled n) := by
  refine ⟨?_, fun _ _ _ _ _ h => evaluate_suspended_iff hf he h, ?_⟩
  · intro depth frame p r q h
    obtain ⟨added, hp, hr⟩ := owing_eval hf he depth frame p r q h
    rw [false_or] at hr
    exact ⟨added, hp, hr⟩
  · intro depth s hs origin context host n
    refine ⟨fun t ht => pass_ne_stalled (s := s.after 0 .idle) hf he hs ht n, fun t ht => ?_,
      fun resolve t ht => run_ne_stalled hf he hs ht n⟩
    obtain ⟨-, hr⟩ | ⟨-, -, hr⟩ | ⟨-, -, hr⟩ := s.resume_cases origin context host
    · obtain rfl := Option.some.inj (hr.symm.trans ht)
      simp [Session.refuse]
    · obtain rfl := Option.some.inj (hr.symm.trans ht)
      simp [Session.refuse]
    · exact pass_ne_stalled hf he hs (hr.symm.trans ht) n

theorem suspended_iff_requests_of_text :
    let world : World Unit := ⟨fun handle _ _ s => (.pending ⟨.name handle.name, 0⟩, s),
      fun _ _ s => (.value (.text ""), s), fun s => (0, s)⟩
    let e : Expr := .text (.read .context (.field "a") (.value (.text "")))
    let formula := world.formula (fun _ => some ⟨none, .argument 0⟩) 0 e
    ∃ ev, formula.evaluate "" (.host ⟨"sheet", 0⟩) () = some ev ∧ ev.value = .suspended ∧
      ev.pending ≠ [] := by
  intro world e formula
  have hf : ∀ (f : Handle) (d : FunctionDefinition),
      (fun _ => some ⟨none, .argument 0⟩ : Handle → Option FunctionDefinition) f = some d →
      d.body.Composed fun _ => True := by
    intro f d hd
    obtain rfl := Option.some.inj hd
    exact .argument 0
  have he : e.Composed fun _ => True := .text (.read _ .context trivial)
  obtain ⟨-, hevaluate, -⟩ := suspended_iff_requests world _ e _ hf he
  exact ⟨_, rfl, rfl, (hevaluate 0 "" (.host ⟨"sheet", 0⟩) () _ rfl).mp rfl⟩

end World

end ResumableFormulas
