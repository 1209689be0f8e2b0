import ResumableFormulas.Proofs.Pass.Correspondence

/-! # What passes write down

A pass writes every reading into its journal, and every pending answer into its list of requests. So
the requests that a computation adds are those of the events that it adds, in the same order. The
computations that keep their accounts in this way, and leave alone whatever of the host is in view,
make a correspondence.
-/
namespace ResumableFormulas

namespace Answer

variable {α : Type}

def outcome : Answer α → Suspendable α
  | value a => .ready a
  | pending _ => .suspended

def requests : Answer α → List Request
  | value _ => []
  | pending r => [r]

theorem outcome_eq_suspended_iff (a : Answer α) : a.outcome = .suspended ↔ a.requests ≠ [] := by
  cases a <;> simp [outcome, requests]

end Answer

def Event.requests {O : Type} : Event O → List Request
  | .read _ _ _ answer => answer.requests
  | .called _ _ _ | .returned _ _ | .applied _ _ => []

namespace Pass

variable {O σ V α β : Type}

/-- What an object answers, and what the answer leaves of the host. -/
def answerOf (host : Host O σ) (origin : O) (target : Object) (property : Property) (s : σ) :
    Answer Value × σ :=
  match target with
  | .error e => (.value (e.read property), s)
  | .host handle => host.read handle property origin s

theorem await_apply (a : Answer α) (p : Progress O σ) :
    await a p = some (a.outcome, { p with pending := p.pending ++ a.requests }) := by
  cases a with
  | value a => simp [Answer.outcome, Answer.requests]
  | pending r => rfl

theorem ask_apply (host : Host O σ) (origin : O) (target : Object) (property : Property)
    (p : Progress O σ) :
    ask host origin target property p =
      let answered := answerOf host origin target property p.host
      some (answered.1.outcome, ⟨answered.2, p.pending ++ answered.1.requests,
        p.journal ++ [.read target property origin answered.1]⟩) := by
  cases target with
  | error e => exact await_apply (.value (e.read property)) _
  | host handle => exact await_apply (host.read handle property origin p.host).1 _

/-- A computation that enters into the journal what has led the host from one state to the next, and
of this the pending answers into the list of requests. -/
def Documented (leads : σ → List (Event O) → σ → Prop) (x : Pass O σ α) : Prop :=
  ∀ p r q, x p = some (r, q) → ∃ events, q.journal = p.journal ++ events ∧
    q.pending = p.pending ++ events.flatMap Event.requests ∧ leads p.host events q.host

namespace Documented

variable {leads : σ → List (Event O) → σ → Prop}

theorem onHost {f : σ → α × σ} (h : ∀ s, leads s [] (f s).2) :
    Documented leads (Pass.onHost f : Pass O σ α) := by
  intro p r q hx
  simp only [onHost_apply, Option.some.injEq, Prod.mk.injEq] at hx
  obtain ⟨-, rfl⟩ := hx
  exact ⟨[], by simp, by simp, h p.host⟩

theorem record {e : Event O} (he : e.requests = []) (h : ∀ s, leads s [e] s) :
    Documented leads (Pass.record e : Pass O σ Unit) := by
  intro p r q hx
  simp only [record_apply, Option.some.injEq, Prod.mk.injEq] at hx
  obtain ⟨-, rfl⟩ := hx
  exact ⟨[e], rfl, by simp [he], h p.host⟩

theorem ask {host : Host O σ} {origin : O} {target : Object} {property : Property}
    (h : ∀ s, leads s [.read target property origin (answerOf host origin target property s).1]
      (answerOf host origin target property s).2) :
    Documented leads (Pass.ask host origin target property) := by
  intro p r q hx
  rw [ask_apply] at hx
  simp only [Option.some.injEq, Prod.mk.injEq] at hx
  obtain ⟨-, rfl⟩ := hx
  exact ⟨[_], rfl, by simp [Event.requests], h p.host⟩

theorem pure (h : ∀ s, leads s [] s) (a : α) : Documented leads (pure a : Pass O σ α) := by
  intro p r q hx
  simp only [pure_apply, Option.some.injEq, Prod.mk.injEq] at hx
  obtain ⟨rfl, rfl⟩ := hx
  exact ⟨[], by simp, by simp, h p.host⟩

theorem bind (h : ∀ {s events s' events' s''}, leads s events s' → leads s' events' s'' →
      leads s (events ++ events') s'')
    {x : Pass O σ α} {f : α → Pass O σ β} (hx : Documented leads x)
    (hf : ∀ a, Documented leads (f a)) : Documented leads (x >>= f) := by
  intro p r q hxf
  obtain ⟨a, p₁, hxe, hfe⟩ := bind_eq_some_iff.mp hxf
  obtain ⟨events, hj, hp, hl⟩ := hx p a p₁ hxe
  obtain ⟨events', hj', hp', hl'⟩ := hf a p₁ r q hfe
  refine ⟨events ++ events', ?_, ?_, h hl hl'⟩
  · rw [hj', hj, List.append_assoc]
  · rw [hp', hp, List.flatMap_append, List.append_assoc]

end Documented

/-- What is asked of `leads` so that it can be followed through all passes at an origin: it goes on
from where it has led, and calls and applications do not change the host. -/
structure Continues (origin : O) (leads : σ → List (Event O) → σ → Prop) : Prop where
  empty : ∀ s, leads s [] s
  append : ∀ {s events s' events' s''}, leads s events s' → leads s' events' s'' →
    leads s (events ++ events') s''
  called : ∀ function arguments s, leads s [.called function origin arguments] s
  returned : ∀ function result s, leads s [.returned function result] s
  applied : ∀ operation operands s, leads s [.applied operation operands] s

theorem Documented.closed {origin : O} {leads : σ → List (Event O) → σ → Prop}
    (h : Continues origin leads) :
    Closed origin (fun {α} (x : Pass O σ α) => Documented leads x) where
  pure a := .pure h.empty a
  bind hx hf := hx.bind h.append hf
  called function arguments := .record rfl (h.called function arguments)
  returned function result := .record rfl (h.returned function result)
  applied operation operands := .record rfl (h.applied operation operands)
  failure := by
    intro α p r q hx
    simp at hx

/-- A computation that keeps its accounts: it leaves what is in view of the host alone, and the
requests that it adds are those of the events that it adds, which all fit the view. -/
def Accounted (view : σ → V) (fits : V → Event O → Prop) (x : Pass O σ α) : Prop :=
  ∀ p r q, x p = some (r, q) → view q.host = view p.host ∧ ∃ events,
    q.journal = p.journal ++ events ∧ q.pending = p.pending ++ events.flatMap Event.requests ∧
    ∀ e ∈ events, fits (view p.host) e

/-- Events that fit the view of the host and do not change it. -/
def Unseen (view : σ → V) (fits : V → Event O → Prop) (s : σ) (events : List (Event O)) (s' : σ) :
    Prop :=
  view s' = view s ∧ ∀ e ∈ events, fits (view s) e

namespace Unseen

variable {view : σ → V} {fits : V → Event O → Prop}

theorem append {s s' s'' : σ} {events events' : List (Event O)}
    (h : Unseen view fits s events s') (h' : Unseen view fits s' events' s'') :
    Unseen view fits s (events ++ events') s'' := by
  refine ⟨h'.1.trans h.1, fun e he => ?_⟩
  rcases List.mem_append.mp he with he | he
  · exact h.2 e he
  · exact h.1 ▸ h'.2 e he

theorem single {e : Event O} {s : σ} (he : fits (view s) e) : Unseen view fits s [e] s :=
  ⟨rfl, by simpa using he⟩

end Unseen

namespace Accounted

variable {view : σ → V} {fits : V → Event O → Prop}

theorem iff_documented {x : Pass O σ α} :
    Accounted view fits x ↔ Documented (Unseen view fits) x := by
  constructor
  · intro h p r q hx
    obtain ⟨hview, events, hj, hp, hfits⟩ := h p r q hx
    exact ⟨events, hj, hp, hview, hfits⟩
  · intro h p r q hx
    obtain ⟨events, hj, hp, hview, hfits⟩ := h p r q hx
    exact ⟨hview, events, hj, hp, hfits⟩

theorem ask {host : Host O σ} {origin : O} {target : Object} {property : Property}
    (hview : ∀ s, view (answerOf host origin target property s).2 = view s)
    (hfits : ∀ s, fits (view s)
      (.read target property origin (answerOf host origin target property s).1)) :
    Accounted view fits (ask host origin target property) :=
  iff_documented.mpr (.ask fun s => ⟨hview s, by simpa using hfits s⟩)

end Accounted

/-- What must be said of the events other than readings for accounts to be kept. -/
structure Tolerates (fits : V → Event O → Prop) (origin : O) : Prop where
  called : ∀ v function arguments, fits v (.called function origin arguments)
  returned : ∀ v function result, fits v (.returned function result)
  applied : ∀ v operation operands, fits v (.applied operation operands)

section

variable {fits : V → Event O → Prop} {origin : O}

theorem Tolerates.continues {view : σ → V} (h : Tolerates fits origin) :
    Continues origin (Unseen view fits) where
  empty _ := ⟨rfl, by simp⟩
  append := .append
  called function arguments s := .single (h.called (view s) function arguments)
  returned function result s := .single (h.returned (view s) function result)
  applied operation operands s := .single (h.applied (view s) operation operands)

theorem Accounted.closed (view : σ → V) (h : Tolerates fits origin) :
    Closed origin (fun {α} (x : Pass O σ α) => Accounted view fits x) := by
  simpa only [Accounted.iff_documented] using Documented.closed h.continues

/-- Computations that keep their accounts. -/
def accounts (view : σ → V) (h : Tolerates fits origin) : Correspondence origin σ σ :=
  (Accounted.closed view h).correspondence

end

end Pass

end ResumableFormulas
