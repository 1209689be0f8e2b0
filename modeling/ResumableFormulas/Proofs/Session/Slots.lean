import ResumableFormulas.Proofs.Expression.Monotonicity

/-! # Worlds of slots

In a world of slots every reading is the reading of a slot. A filled slot answers with its content,
an empty one with a request that tells which slot it is, and readings leave the slots as they are.
Filling slots supplements such a world.
-/
namespace ResumableFormulas
open Pass

/-- The slots of a world, as they are read from an origin. -/
structure Slots {σ : Type} (world : World σ) (origin : String) (S : Type) where
  slot : Handle → Property → S
  content : σ → S → Option Value
  /-- The slot that a request is waiting for. -/
  subject : Request → S
  read_filled : ∀ s handle property v, content s (slot handle property) = some v →
    (world.read handle property origin s).1 = .value v
  read_empty : ∀ s handle property, content s (slot handle property) = none →
    ∃ r, (world.read handle property origin s).1 = .pending r ∧ subject r = slot handle property
  content_read : ∀ s handle property,
    content (world.read handle property origin s).2 = content s

namespace Slots

variable {σ S : Type} {world : World σ} {origin : String} (slots : Slots world origin S)

/-- What can be read in the lower state can be read in the upper one. -/
def Below (s s' : σ) : Prop :=
  ∀ handle property v, slots.content s (slots.slot handle property) = some v →
    slots.content s' (slots.slot handle property) = some v

/-- A slot that can be read and is empty. -/
def Missing (content : S → Option Value) (k : S) : Prop :=
  content k = none ∧ ∃ handle property, slots.slot handle property = k

/-- An event that has brought requests for empty slots only. -/
def Founded (content : S → Option Value) (event : Event String) : Prop :=
  ∀ r ∈ event.requests, slots.Missing content (slots.subject r)

theorem value_of_read {s : σ} {handle : Handle} {property : Property} {v : Value}
    (h : (world.read handle property origin s).1 = .value v) :
    slots.content s (slots.slot handle property) = some v := by
  cases hc : slots.content s (slots.slot handle property) with
  | none =>
    obtain ⟨r, hr, -⟩ := slots.read_empty s handle property hc
    rw [hr] at h
    contradiction
  | some w =>
    have hw := slots.read_filled s handle property w hc
    rw [h] at hw
    obtain rfl := Answer.value.inj hw
    rfl

theorem missing_of_read {s : σ} {handle : Handle} {property : Property} {r : Request}
    (h : (world.read handle property origin s).1 = .pending r) :
    slots.Missing (slots.content s) (slots.subject r) := by
  cases hc : slots.content s (slots.slot handle property) with
  | none =>
    obtain ⟨r', hr', hsubject⟩ := slots.read_empty s handle property hc
    rw [h] at hr'
    obtain rfl := Answer.pending.inj hr'
    exact ⟨hsubject ▸ hc, handle, property, hsubject.symm⟩
  | some w =>
    rw [slots.read_filled s handle property w hc] at h
    contradiction

theorem supplements : world.Supplements world origin slots.Below where
  value s s' hb handle property v hv :=
    slots.read_filled s' handle property v (hb handle property v (slots.value_of_read hv))
  lower s s' handle property := by simp only [Below, slots.content_read]
  upper s s' handle property := by simp only [Below, slots.content_read]

theorem tolerates : Tolerates slots.Founded origin := by
  refine ⟨?_, ?_, ?_⟩ <;> simp [Founded, Event.requests]

theorem accounts :
    World.Correspond (Pass.accounts slots.content slots.tolerates) world world Literal.Fixed := by
  refine .accounts _ slots.content_read ?_ ?_
  · intro s e property r hr
    simp [Event.requests, Answer.requests] at hr
  · intro s handle property r hr
    obtain ⟨_, _, _, hevent⟩ := Event.mem_requests_iff.mp hr
    simp only [Event.read.injEq] at hevent
    exact slots.missing_of_read hevent.2.2.2

/-- A pass leaves the slots as they are, and asks for empty ones only. -/
theorem evaluate_missing {functions : Handle → Option FunctionDefinition} {e : Expr}
    {stuck : Prop} (hf : ∀ f d, functions f = some d → d.body.Built Literal.Fixed stuck)
    (he : e.Built Literal.Fixed stuck) {depth : Nat} {context : Object} {host : σ}
    {ev : Evaluation String σ}
    (h : (world.formula functions depth e).evaluate origin context host = some ev) :
    slots.content ev.host = slots.content host ∧
      ∀ r ∈ ev.pending, slots.Missing (slots.content host) (slots.subject r) := by
  obtain ⟨hview, events, -, hp, hfounded⟩ := slots.accounts.eval_closed hf he depth context [] _ _ _
    (Formula.evaluate_eq_some_iff.mp h)
  refine ⟨hview, fun r hr => ?_⟩
  simp only [List.nil_append] at hp
  rw [hp, List.mem_flatMap] at hr
  obtain ⟨event, hevent, hr⟩ := hr
  exact hfounded event hevent r hr

/-- The later state has the slots of the earlier one, and maybe more of them filled as assigned. -/
def Filled (g : S → Value) (before after : σ) : Prop :=
  ∀ k, slots.content after k = slots.content before k ∨
    (slots.content before k = none ∧ slots.content after k = some (g k))

/-- A round that fills slots as assigned, one of those asked for among them. -/
structure Fills (g : S → Value) (pending : List Request) (before after : σ) : Prop where
  assigned : slots.Filled g before after
  progress : ∃ r ∈ pending, slots.content after (slots.subject r) ≠ none

/-- A state in which all slots are filled, as assigned unless they were filled before. -/
def Completes (g : S → Value) (host full : σ) : Prop :=
  ∀ handle property, slots.content full (slots.slot handle property) =
    some ((slots.content host (slots.slot handle property)).getD (g (slots.slot handle property)))

variable {slots} {g : S → Value} {host full s before after : σ}

theorem Filled.below (h : slots.Filled g host s) (hfull : slots.Completes g host full) :
    slots.Below s full := by
  intro handle property v hv
  rw [hfull handle property]
  rcases h (slots.slot handle property) with hk | ⟨hk, hs⟩
  · rw [← hk, hv, Option.getD_some]
  · rw [hk, Option.getD_none, ← hs, hv]

theorem Filled.refl (slots : Slots world origin S) (g : S → Value) (s : σ) : slots.Filled g s s :=
  fun _ => .inl rfl

theorem Filled.trans (h : slots.Filled g host before) (h' : slots.Filled g before after) :
    slots.Filled g host after := by
  intro k
  rcases h' k with hk | ⟨hk, ha⟩
  · rw [hk]
    exact h k
  · rcases h k with hb | ⟨-, hb⟩
    · exact .inr ⟨hb ▸ hk, ha⟩
    · rw [hk] at hb
      contradiction

theorem Filled.eq_none (h : slots.Filled g before after) {k : S}
    (hk : slots.content after k = none) : slots.content before k = none := by
  rcases h k with h | ⟨h, -⟩
  · exact h ▸ hk
  · exact h

end Slots

end ResumableFormulas
