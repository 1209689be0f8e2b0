import ResumableFormulas.Proofs.Expression.Composition
import ResumableFormulas.Proofs.Pass.Simulation

/-! # More values change no answer

When a host is supplemented with values for readings that were pending before, the expressions that
had a value keep it, and the others have asked nothing that is not asked in the end as well. This
holds as long as nothing new is made by a pass, so that both passes mean the same objects.
-/
namespace ResumableFormulas
open Pass

/-- A literal that makes nothing new. -/
def Literal.Fixed (l : Literal) : Prop := ∃ v, l = .value v

theorem Event.mem_requests_iff {O : Type} {r : Request} {e : Event O} :
    r ∈ e.requests ↔ ∃ target property origin, e = .read target property origin (.pending r) := by
  cases e with
  | read target property origin answer =>
    cases answer <;> simp [requests, Answer.requests, eq_comm]
  | called | returned | applied => simp [requests]

namespace World

variable {σ σ' V : Type}

/-- The upper world has a value for all readings for which the lower one has, and readings make no
difference to which state is below which. -/
structure Supplements (world' : World σ') (world : World σ) (origin : String)
    (below : σ → σ' → Prop) : Prop where
  value : ∀ s s', below s s' → ∀ handle property v,
    (world.read handle property origin s).1 = .value v →
    (world'.read handle property origin s').1 = .value v
  lower : ∀ s s' handle property, below (world.read handle property origin s).2 s' ↔ below s s'
  upper : ∀ s s' handle property, below s (world'.read handle property origin s').2 ↔ below s s'

theorem Supplements.lagging {world : World σ} {world' : World σ'} {origin : String}
    {below : σ → σ' → Prop} (h : world'.Supplements world origin below) :
    Correspond (lagging below origin) world world' Literal.Fixed where
  ask call call' target property := by
    cases target with
    | error e =>
      exact ⟨.ask (fun _ => rfl) fun _ => trivial, .ask (fun _ _ _ _ hv => hv) fun _ _ hb => hb⟩
    | host handle =>
      refine ⟨.ask (fun s' => ?_) fun _ => trivial, .ask (fun s s' hb v hv => ?_) fun s s' hb => ?_⟩
      · funext s
        exact propext (h.upper s s' handle property)
      · exact h.value s s' hb handle property v hv
      · exact (h.lower s _ handle property).mpr ((h.upper s s' handle property).mpr hb)
  literal l hl := by
    obtain ⟨v, rfl⟩ := hl
    exact (Pass.lagging below origin).ready v

theorem Correspond.accounts {world : World σ} {origin : String} {view : σ → V}
    {fits : V → Event String → Prop} (h : Tolerates fits origin)
    (hview : ∀ s handle property, view (world.read handle property origin s).2 = view s)
    (herror : ∀ s (e : ErrorObject) property,
      fits (view s) (.read (.error e) property origin (.value (e.read property))))
    (hread : ∀ s handle property, fits (view s)
      (.read (.host handle) property origin (world.read handle property origin s).1)) :
    Correspond (Pass.accounts view h) world world Literal.Fixed where
  ask _ _ target property := by
    cases target with
    | error e => exact .ask (fun _ => rfl) fun s => herror s e property
    | host handle => exact .ask (fun s => hview s handle property) fun s => hread s handle property
  literal l hl := by
    obtain ⟨v, rfl⟩ := hl
    exact (Pass.accounts view h).ready v

section

variable {world : World σ} {world' : World σ'} {functions : Handle → Option FunctionDefinition}
  {e : Expr} {origin : String} {below : σ → σ' → Prop} {stuck : Prop}
  (hf : ∀ f d, functions f = some d → d.body.Built Literal.Fixed stuck)
  (he : e.Built Literal.Fixed stuck)
include hf he

theorem pending_eq {depth : Nat} {context : Object} {host : σ} {ev : Evaluation String σ}
    (h : (world.formula functions depth e).evaluate origin context host = some ev) :
    ev.pending = ev.journal.flatMap Event.requests := by
  have hworld : Correspond (Pass.accounts (fun _ : σ => ()) (tolerates_all origin)) world world
      Literal.Fixed := .accounts _ (fun _ _ _ => rfl) (fun _ _ _ => trivial) fun _ _ _ => trivial
  obtain ⟨-, events, hj, hp, -⟩ := hworld.eval_closed hf he depth context [] _ _ _
    (Formula.evaluate_eq_some_iff.mp h)
  simp only [List.nil_append] at hj hp
  rw [hj, hp]

theorem Supplements.evaluate_lags (h : world'.Supplements world origin below) {depth : Nat}
    {context : Object} {host : σ} {host' : σ'} (hbelow : below host host')
    {full : Evaluation String σ'}
    (hfull : (world'.formula functions depth e).evaluate origin context host' = some full) :
    ∃ ev, (world.formula functions depth e).evaluate origin context host = some ev ∧
      Lags ev.value ev.journal full.value full.journal := by
  have hsuspended : (Pass.lagging below origin).rel (pure (.suspended : Suspendable Value))
      (pure .suspended) :=
    ⟨(accounted_closed _ origin).pure _, .pure (.behind (List.Sublist.refl _))⟩
  obtain ⟨-, hfollows⟩ := h.lagging.eval_built (fun _ => hsuspended) hf he depth context []
  obtain ⟨r, q, events, events', hrun, -, hj, hj', hlags⟩ :=
    hfollows ⟨host, [], []⟩ _ hbelow _ _ (Formula.evaluate_eq_some_iff.mp hfull)
  simp only [List.nil_append] at hj hj'
  refine ⟨⟨r, q.pending, q.journal, q.host⟩, Formula.evaluate_eq_some_iff.mpr hrun, ?_⟩
  rw [hj, hj']
  exact hlags

end

/-- If the pass of an expression ends on the upper one of two hosts, then it also ends on the lower
one. A value that it gives there is the value above, had in the same way. Without a value it has
asked a part of what is asked above, in the same order, and its requests are from readings above. -/
theorem evaluate_supplemented (world : World σ) (world' : World σ') (origin : String)
    (below : σ → σ' → Prop) (h : world'.Supplements world origin below)
    (functions : Handle → Option FunctionDefinition) (e : Expr)
    (hf : ∀ f d, functions f = some d → d.body.Built Literal.Fixed True)
    (he : e.Built Literal.Fixed True) (depth : Nat) (context : Object) (host : σ) (host' : σ')
    (hbelow : below host host') (full : Evaluation String σ')
    (hfull : (world'.formula functions depth e).evaluate origin context host' = some full) :
    ∃ ev, (world.formula functions depth e).evaluate origin context host = some ev ∧
      (∀ v, ev.value = .ready v → full.value = .ready v ∧ full.journal = ev.journal) ∧
      (ev.value = .suspended → (inquiries ev.journal).Sublist (inquiries full.journal)) ∧
      ∀ r ∈ ev.pending, ∃ target property o, .read target property o (.pending r) ∈ ev.journal ∧
        .read target property ∈ inquiries full.journal := by
  obtain ⟨ev, hev, hlags⟩ := h.evaluate_lags hf he hbelow hfull
  refine ⟨ev, hev, ?_, fun _ => hlags.sublist, ?_⟩
  · intro v hv
    rw [hv] at hlags
    exact hlags.of_ready
  · intro r hr
    rw [pending_eq hf he hev, List.mem_flatMap] at hr
    obtain ⟨event, hevent, hr⟩ := hr
    obtain ⟨target, property, o, rfl⟩ := Event.mem_requests_iff.mp hr
    have hinquiry : .read target property ∈ inquiries ev.journal :=
      List.mem_filterMap.mpr ⟨_, hevent, rfl⟩
    exact ⟨target, property, o, hevent, hlags.sublist.subset hinquiry⟩

theorem evaluate_supplemented_of_filled :
    let world : World (Option Value) := ⟨fun handle _ _ s =>
      (s.elim (.pending ⟨.name handle.name, 0⟩) .value, s), fun _ _ s => (.value (.text ""), s),
      fun s => (0, s)⟩
    let e : Expr := .text (.read .context (.field "a") (.value (.text "")))
    let formula := world.formula (fun _ => some ⟨none, .argument 0⟩) 0 e
    ∃ ev full, formula.evaluate "" (.host ⟨"sheet", 0⟩) none = some ev ∧
      formula.evaluate "" (.host ⟨"sheet", 0⟩) (some (.text "x")) = some full ∧
      ev.value = .suspended ∧ full.value = .ready (.text "x") ∧
      (inquiries ev.journal).Sublist (inquiries full.journal) := by
  intro world e formula
  have hworld : world.Supplements world "" fun s s' => ∀ v, s = some v → s' = some v := by
    refine ⟨fun s s' hb handle property v hv => ?_, fun _ _ _ _ => Iff.rfl, fun _ _ _ _ => Iff.rfl⟩
    cases s with
    | none => contradiction
    | some w =>
      obtain rfl : w = v := by simpa [world] using hv
      simp [world, hb w rfl]
  have hf : ∀ (f : Handle) (d : FunctionDefinition),
      (fun _ => some ⟨none, .argument 0⟩ : Handle → Option FunctionDefinition) f = some d →
      d.body.Built Literal.Fixed True := by
    intro f d hd
    obtain rfl := Option.some.inj hd
    exact .argument 0
  have he : e.Built Literal.Fixed True := .text (.read _ .context ⟨_, rfl⟩)
  obtain ⟨ev, hev, -, hsublist, -⟩ := evaluate_supplemented world world "" _ hworld _ e hf he 0
    (.host ⟨"sheet", 0⟩) none (some (.text "x")) (fun v hv => by contradiction) _ rfl
  obtain rfl := Option.some.inj hev
  exact ⟨_, _, rfl, rfl, rfl, rfl, hsublist rfl⟩

end World

end ResumableFormulas
