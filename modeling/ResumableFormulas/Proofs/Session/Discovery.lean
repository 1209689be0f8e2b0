import ResumableFormulas.Proofs.Expression.OperatorTree
import ResumableFormulas.Proofs.Session.Course

/-! # Discovering what to ask for

The fields of a sheet are slots: a filled one answers with its content and an empty one with a
request that tells which slot it is. What a computation asks for depends on the contents only, which
it leaves as they are, so it can be planned: if every round of resolving takes away what was asked
for first and leaves the rest of the plan, then a run makes a pass for each part of its plan, and
one more for the value.
-/
namespace ResumableFormulas
open Pass

variable {O σ S α β : Type}

/-- An object of the host with slots for fields, in the stable states of the host. -/
structure Sheet (host : Host O σ) (origin : O) (handle : Handle) (stable : σ → Prop)
    (S : Type) where
  slot : String → S
  content : σ → S → Option Value
  /-- The slot that a request is waiting for. -/
  subject : Request → S
  read_filled : ∀ s name v, stable s → content s (slot name) = some v →
    (host.read handle (.field name) origin s).1 = .value v
  read_empty : ∀ s name, stable s → content s (slot name) = none →
    ∃ r, (host.read handle (.field name) origin s).1 = .pending r ∧ subject r = slot name
  content_read : ∀ s name, stable s →
    content (host.read handle (.field name) origin s).2 = content s
  stable_read : ∀ s name, stable s → stable (host.read handle (.field name) origin s).2

/-- How a computation comes out that has asked for these slots. -/
inductive Found (post : α → Prop) : List S → Suspendable α → Prop where
  | ready {a : α} (ha : post a) : Found post [] (.ready a)
  | suspended {asked : List S} (h : asked ≠ []) : Found post asked .suspended

namespace Found

variable {post : α → Prop} {asked : List S}

theorem of_ready {a : α} (h : Found post asked (.ready a)) : post a := by
  cases h with
  | ready ha => exact ha

theorem isReady_iff {x : Suspendable α} (h : Found post asked x) :
    x.isReady = true ↔ asked = [] := by
  cases h with
  | ready ha => exact iff_of_true rfl rfl
  | suspended h => exact iff_of_false Bool.false_ne_true h

end Found

/-- In each round of a run the requests are resolved, in a way that is described. -/
def Session.Served (s : Session O σ) (origin : O) (context : Object) (resolve : Session.Resolver σ)
    (host : σ) (done : List Request → σ → σ → Prop) : Prop :=
  ∀ es before e, Session.Course s.formula origin context resolve host es before →
    s.formula.evaluate origin context before = some e → e.value = .suspended →
    es.length < max 1 s.maxPasses →
    ∃ after, resolve es.length e.pending e.host = (.ok (), after) ∧ done e.pending e.host after

theorem Session.Served.mono {s : Session O σ} {origin : O} {context : Object}
    {resolve : Session.Resolver σ} {host : σ} {done done' : List Request → σ → σ → Prop}
    (h : s.Served origin context resolve host done)
    (hdone : ∀ pending before after, done pending before after → done' pending before after) :
    s.Served origin context resolve host done' := by
  intro es before e hes he hv hlength
  obtain ⟨after, hr, hafter⟩ := h es before e hes he hv hlength
  exact ⟨after, hr, hdone _ _ _ hafter⟩

namespace Sheet

variable {host : Host O σ} {origin : O} {handle : Handle} {stable : σ → Prop}
  (sheet : Sheet host origin handle stable S)

/-- The empty ones of the slots of these names. -/
def missing (names : List String) (content : S → Option Value) : List S :=
  (names.map sheet.slot).filter fun k => (content k).isNone

theorem mem_missing {names : List String} {content : S → Option Value} {k : S} :
    k ∈ sheet.missing names content ↔ k ∈ names.map sheet.slot ∧ content k = none := by
  rw [missing, List.mem_filter, Option.isNone_iff_eq_none]

theorem missing_append (names names' : List String) (content : S → Option Value) :
    sheet.missing (names ++ names') content =
      sheet.missing names content ++ sheet.missing names' content := by
  rw [missing, List.map_append, List.filter_append]
  rfl

/-- A stable state with these contents. -/
def At (content : S → Option Value) (s : σ) : Prop := stable s ∧ sheet.content s = content

/-- A computation that comes to an end from every stable state with these contents, with a result as
described, after asking for the slots in this order and with the contents left as they are. -/
def Asks (content : S → Option Value) (asked : List S) (post : α → Prop) (x : Pass O σ α) : Prop :=
  ∀ p, sheet.At content p.host → ∃ a q added, x p = some (a, q) ∧ post a ∧
    q.pending = p.pending ++ added ∧ added.map sheet.subject = asked ∧ sheet.At content q.host

/-- A computation that is ready unless it asks for a slot. -/
def Discovers (content : S → Option Value) (asked : List S) (post : α → Prop)
    (x : Pass O σ (Suspendable α)) : Prop :=
  sheet.Asks content asked (Found post asked) x

variable {sheet} {content : S → Option Value} {asked asked' : List S} {post : α → Prop}
  {post' : β → Prop}

namespace Asks

theorem pure {a : α} (h : post a) : sheet.Asks content [] post (pure a : Pass O σ α) :=
  fun p hp => ⟨a, p, [], rfl, h, (List.append_nil _).symm, rfl, hp⟩

theorem bind {x : Pass O σ α} {f : α → Pass O σ β} (hx : sheet.Asks content asked post x)
    (hf : ∀ a, post a → sheet.Asks content asked' post' (f a)) :
    sheet.Asks content (asked ++ asked') post' (x >>= f) := by
  intro p hp
  obtain ⟨a, p₁, added, hxe, ha, hpending, hadded, hp₁⟩ := hx p hp
  obtain ⟨b, q, added', hfe, hb, hpending', hadded', hq⟩ := hf a ha p₁ hp₁
  refine ⟨b, q, added ++ added', bind_eq_some_iff.mpr ⟨a, p₁, hxe, hfe⟩, hb, ?_, ?_, hq⟩
  · rw [hpending', hpending, List.append_assoc]
  · rw [List.map_append, hadded, hadded']

theorem bind_quiet {x : Pass O σ α} {f : α → Pass O σ β} (hx : sheet.Asks content asked post x)
    (hf : ∀ a, post a → sheet.Asks content [] post' (f a)) :
    sheet.Asks content asked post' (x >>= f) := by
  have h := hx.bind hf
  rwa [List.append_nil] at h

end Asks

namespace Discovers

theorem ready {a : α} (h : post a) :
    sheet.Discovers content [] post (Pure.pure (.ready a) : Pass O σ (Suspendable α)) :=
  .pure (.ready h)

theorem of_settles {x : Pass O σ (Suspendable α)} {a : α}
    (h : Settles (sheet.At content) (· = .ready a) x) (ha : post a) :
    sheet.Discovers content [] post x := by
  intro p hp
  obtain ⟨_, q, hxe, rfl, hpending, hq⟩ := h p hp
  exact ⟨_, q, [], hxe, .ready ha, by rw [hpending, List.append_nil], rfl, hq⟩

theorem mono {x : Pass O σ (Suspendable α)} {post₁ : α → Prop}
    (hx : sheet.Discovers content asked post x) (h : ∀ a, post a → post₁ a) :
    sheet.Discovers content asked post₁ x := by
  intro p hp
  obtain ⟨a, q, added, hxe, hfound, hrest⟩ := hx p hp
  refine ⟨a, q, added, hxe, ?_, hrest⟩
  cases hfound with
  | ready ha => exact .ready (h _ ha)
  | suspended hne => exact .suspended hne

theorem andThen {x : Pass O σ (Suspendable α)} {f : α → Pass O σ (Suspendable β)}
    (hx : sheet.Discovers content asked post x)
    (hf : ∀ a, post a → sheet.Discovers content [] post' (f a)) :
    sheet.Discovers content asked post' (do (← x).andThen f) := by
  refine Asks.bind_quiet hx fun v hv => ?_
  cases hv with
  | ready ha => exact hf _ ha
  | suspended h => exact .pure (.suspended h)

/-- Two computations are both run, whatever comes of the first one. -/
theorem andThenBoth {γ : Type} {x : Pass O σ (Suspendable α)} {y : Pass O σ (Suspendable β)}
    {f : α → β → Pass O σ (Suspendable γ)} {post'' : γ → Prop}
    (hx : sheet.Discovers content asked post x) (hy : sheet.Discovers content asked' post' y)
    (hf : ∀ a b, post a → post' b → sheet.Discovers content [] post'' (f a b)) :
    sheet.Discovers content (asked ++ asked') post'' (do
      let v ← x
      v.andThenBoth (← y) f) := by
  refine Asks.bind hx fun v hv => Asks.bind_quiet hy fun w hw => ?_
  cases hv with
  | suspended h =>
    rw [Suspendable.andThenBoth_suspended_left]
    exact .pure (.suspended (List.append_ne_nil_of_left_ne_nil h _))
  | ready ha =>
    cases hw with
    | suspended h => exact .pure (.suspended h)
    | ready hb => exact hf _ _ ha hb

end Discovers

theorem discovers_ask (sheet : Sheet host origin handle stable S) (content : S → Option Value)
    (name : String) :
    sheet.Discovers content (sheet.missing [name] content)
      (fun v => content (sheet.slot name) = some v)
      (ask host origin (.host handle) (.field name)) := by
  rintro p ⟨hstable, rfl⟩
  have hat : sheet.At (sheet.content p.host) (host.read handle (.field name) origin p.host).2 :=
    ⟨sheet.stable_read _ name hstable, sheet.content_read _ name hstable⟩
  refine ⟨_, _, _, ask_apply host origin (.host handle) (.field name) p, ?_, rfl, ?_, hat⟩
  all_goals
    simp only [missing, answerOf, List.map_cons, List.map_nil]
    cases hc : sheet.content p.host (sheet.slot name) with
    | some v =>
      rw [sheet.read_filled _ _ v hstable hc]
      simp [hc, Answer.outcome, Answer.requests, Found.ready]
    | none =>
      obtain ⟨r, hr, hsubject⟩ := sheet.read_empty _ name hstable hc
      rw [hr]
      simp [hc, hsubject, Answer.outcome, Answer.requests, Found.suspended]

theorem Discovers.evaluate {formula : Formula O σ} {context : Object} {post : Value → Prop}
    (h : sheet.Discovers content asked post (formula origin context)) {s : σ}
    (hs : sheet.At content s) :
    ∃ e, formula.evaluate origin context s = some e ∧ Found post asked e.value ∧
      e.pending.map sheet.subject = asked ∧ sheet.At content e.host := by
  obtain ⟨v, q, added, hpass, hv, hpending, hadded, hq⟩ := h ⟨s, [], []⟩ hs
  obtain rfl : q.pending = added := hpending
  exact ⟨⟨v, q.pending, q.journal, q.host⟩, Formula.evaluate_eq_some_iff.mpr hpass, hv, hadded, hq⟩

/-- A round that leaves no slot empty that was asked for, and empties none. -/
def Fills (sheet : Sheet host origin handle stable S) (pending : List Request) (before after : σ) :
    Prop :=
  (stable before → stable after) ∧ ∀ k, sheet.content after k = none →
    sheet.content before k = none ∧ k ∉ pending.map sheet.subject

/-- A round that fills the slots that were asked for, and no other one. -/
def FillsExactly (sheet : Sheet host origin handle stable S) (pending : List Request)
    (before after : σ) : Prop :=
  (stable before → stable after) ∧ ∀ k, sheet.content after k = none ↔
    sheet.content before k = none ∧ k ∉ pending.map sheet.subject

theorem FillsExactly.fills {pending : List Request} {before after : σ}
    (h : sheet.FillsExactly pending before after) : sheet.Fills pending before after :=
  ⟨h.1, fun k => (h.2 k).mp⟩

/-- A pass that takes the first step of a plan: it asks for what comes first, and has a value if
nothing is left. -/
inductive Starts (sheet : Sheet host origin handle stable S) (content : S → Option Value)
    (e : Evaluation O σ) : List (List S) → Prop where
  | value {v : Value} (hv : e.value = .ready v) : Starts sheet content e []
  | requests {asked : List S} (hv : e.value = .suspended)
      (hasked : e.pending.map sheet.subject = asked) (hne : asked ≠ [])
      (hat : sheet.At content e.host) (rest : List (List S)) :
      Starts sheet content e (asked :: rest)

/-- A plan, for the contents that are found, of what the passes of a formula will ask for. -/
def Plans (sheet : Sheet host origin handle stable S) (formula : Formula O σ)
    (plan : (S → Option Value) → List (List S)) : Prop :=
  ∀ content s, sheet.At content s →
    ∃ e, formula.evaluate origin (.host handle) s = some e ∧ sheet.Starts content e (plan content)

/-- Rounds of this kind do what is first in the plan, and nothing else of it. -/
def Advances (sheet : Sheet host origin handle stable S)
    (plan : (S → Option Value) → List (List S)) (done : List Request → σ → σ → Prop) : Prop :=
  ∀ pending before after rest, stable before →
    plan (sheet.content before) = pending.map sheet.subject :: rest → done pending before after →
    stable after ∧ plan (sheet.content after) = rest

section

variable {s : Session O σ} {plan : (S → Option Value) → List (List S)}
  {resolve : Session.Resolver σ} {done : List Request → σ → σ → Prop} {start : σ}
  (hplan : sheet.Plans s.formula plan) (hdone : sheet.Advances plan done) (hstart : stable start)
  (hserved : s.Served origin (.host handle) resolve start done)
include hplan

theorem Plans.evaluate_starts {before : σ} (hbefore : stable before) {e : Evaluation O σ}
    (he : s.formula.evaluate origin (.host handle) before = some e) :
    sheet.Starts (sheet.content before) e (plan (sheet.content before)) := by
  obtain ⟨e', he', hstarts⟩ := hplan _ before ⟨hbefore, rfl⟩
  obtain rfl := Option.some.inj (he.symm.trans he')
  exact hstarts

include hdone hstart hserved

/-- The passes of a run take the first steps of the plan, and leave the others for later. -/
theorem course_of_plan {es : List (Evaluation O σ)} {before : σ}
    (h : Session.Course s.formula origin (.host handle) resolve start es before)
    (hlength : es.length ≤ max 1 s.maxPasses) :
    stable before ∧ plan (sheet.content start) =
      es.map (fun e => e.pending.map sheet.subject) ++ plan (sheet.content before) := by
  induction h with
  | start => exact ⟨hstart, rfl⟩
  | @next es before after e hes he hv hp hr ih =>
    rw [List.length_append, List.length_singleton] at hlength
    obtain ⟨hstable, hmade⟩ := ih (by omega)
    obtain ⟨after', hr', hround⟩ := hserved es before e hes he hv (by omega)
    obtain rfl : after = after' := by
      rw [hr] at hr'
      exact congrArg Prod.snd hr'
    have hstarts := hplan.evaluate_starts hstable he
    generalize hleft : plan (sheet.content before) = left at hmade hstarts
    cases hstarts with
    | value hv' =>
      rw [hv] at hv'
      contradiction
    | requests _ hasked _ hat rest =>
      subst hasked
      -- The round starts where the pass has left the host, which has the contents that it found.
      obtain ⟨hafter, hrest⟩ := hdone _ _ _ rest hat.1 (hat.2 ▸ hleft) hround
      refine ⟨hafter, ?_⟩
      rw [hmade, hrest, List.map_append, List.append_assoc]
      rfl

/-- A run comes to the end of its plan and has a value, or else to the limit before that. -/
theorem run_cases_of_plan :
    ∃ t, s.run origin (.host handle) resolve start = some t ∧
      ((plan (sheet.content start) = t.rounds.map (·.map sheet.subject) ∧
          t.session.passes = t.rounds.length + 1 ∧ t.session.passes ≤ max 1 s.maxPasses ∧
          ∃ before e v, stable before ∧
            s.formula.evaluate origin (.host handle) before = some e ∧ e.value = .ready v ∧
            t.host = e.host ∧ t.result = .ok v) ∨
        (∃ rest, plan (sheet.content start) = t.rounds.map (·.map sheet.subject) ++ rest) ∧
          t.session.passes = t.rounds.length ∧ t.session.passes = max 1 s.maxPasses ∧
          t.result = .error (.passLimit (max 1 s.maxPasses))) := by
  have hends : ¬ Session.Hangs s resolve origin (.host handle) start := by
    rintro ⟨es, before, hes, hlength, hnone⟩
    obtain ⟨hstable, -⟩ := course_of_plan hplan hdone hstart hserved hes (Nat.le_of_lt hlength)
    obtain ⟨e, he, -⟩ := hplan _ before ⟨hstable, rfl⟩
    exact Option.some_ne_none e (he.symm.trans hnone)
  obtain ⟨t, ht, es, before, e, hes, he, hbound, hc⟩ := Session.run_ends hends
  obtain ⟨hstable, hmade⟩ := course_of_plan hplan hdone hstart hserved hes (by omega)
  have hstarts := hplan.evaluate_starts hstable he
  refine ⟨t, ht, ?_⟩
  -- Of the four conclusions, what is left of the plan admits a single one.
  generalize plan (sheet.content before) = left at hmade hstarts
  cases hstarts with
  | value hv =>
    cases hc with
    | value hv' =>
      refine .inl ⟨?_, by simp [Session.after], hbound, before, e, _, hstable, he, hv', rfl, rfl⟩
      rw [hmade, List.append_nil, List.map_map]
      rfl
    | stalled hv' | unresolved hv' | limit hv' =>
      rw [hv] at hv'
      contradiction
  | requests hv hasked hne _ rest =>
    subst hasked
    cases hc with
    | value hv' =>
      rw [hv] at hv'
      contradiction
    | stalled _ hp => exact absurd (by rw [hp, List.map_nil]) hne
    | unresolved _ _ hr =>
      obtain ⟨after, hr', -⟩ := hserved es before e hes he hv (by omega)
      rw [hr] at hr'
      simp at hr'
    | limit _ _ _ hn =>
      refine .inr ⟨⟨rest, ?_⟩, by simp [Session.after], hn, by rw [hn]⟩
      rw [hmade, List.map_map, List.map_append, List.append_assoc]
      rfl

/-- A run makes one pass for each step of its plan and one more, which gives the value, unless the
plan is too long for the limit. -/
theorem run_of_plan :
    ∃ t, s.run origin (.host handle) resolve start = some t ∧
      ((plan (sheet.content start)).length < max 1 s.maxPasses →
        t.session.passes = (plan (sheet.content start)).length + 1 ∧
        t.rounds.map (·.map sheet.subject) = plan (sheet.content start) ∧
        ∃ before e v, stable before ∧
          s.formula.evaluate origin (.host handle) before = some e ∧ e.value = .ready v ∧
          t.host = e.host ∧ t.result = .ok v) ∧
      (max 1 s.maxPasses ≤ (plan (sheet.content start)).length →
        t.result = .error (.passLimit (max 1 s.maxPasses)) ∧
        t.rounds.length = max 1 s.maxPasses ∧
        t.rounds.map (·.map sheet.subject) =
          (plan (sheet.content start)).take (max 1 s.maxPasses)) := by
  obtain ⟨t, ht, hend⟩ := run_cases_of_plan hplan hdone hstart hserved
  refine ⟨t, ht, ?_⟩
  rcases hend with ⟨hmade, hpasses, hbound, hvalue⟩ | ⟨⟨rest, hmade⟩, hpasses, hlast, hresult⟩
  · have hlength : (plan (sheet.content start)).length = t.rounds.length := by
      rw [hmade, List.length_map]
    exact ⟨fun _ => ⟨by rw [hpasses, hlength], hmade.symm, hvalue⟩, fun hlimit => by omega⟩
  · have hlength : (t.rounds.map (·.map sheet.subject)).length = max 1 s.maxPasses := by
      rw [List.length_map, ← hpasses, hlast]
    rw [hmade, List.length_append, hlength]
    refine ⟨fun hlimit => by omega, fun _ => ⟨hresult, by rw [← hpasses, hlast], ?_⟩⟩
    rw [List.take_left' hlength]

end

end Sheet

end ResumableFormulas
