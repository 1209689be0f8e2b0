import ResumableFormulas.Proofs.Expression.Suspension
import ResumableFormulas.Proofs.Workbook.Slots

/-! # Resolving until there is a value

A pass that is suspended has asked for an empty slot. If every round fills one of the slots that
were asked for, then a run makes at most as many passes as there are empty slots, and one more.
Whatever the rounds fill and in whichever order, the state they lead to is below the one in which
everything is filled, so the value can only be the one that is found there.
-/
namespace ResumableFormulas
open Pass

namespace Slots

variable {σ S : Type} {world : World σ} {origin : String} (slots : Slots world origin S)

/-- In every round of a run the resolver fills a slot that was asked for, and never fails. -/
def Serves (g : S → Value) (formula : Formula String σ) (context : Object)
    (resolve : Session.Resolver σ) (host : σ) : Prop :=
  ∀ es before e, Session.Course formula origin context resolve host es before →
    formula.evaluate origin context before = some e → e.value = .suspended →
    ∃ after, resolve es.length e.pending e.host = (.ok (), after) ∧
      slots.Fills g e.pending e.host after

/-- The empty ones of some slots. -/
def empty (E : List S) (s : σ) : List S := E.filter fun k => (slots.content s k).isNone

variable {slots} {g : S → Value} {host full before after : σ} {E : List S}

/-- The empty slots become fewer when one of them is filled. -/
theorem Filled.empty_lt (h : slots.Filled g before after) {k : S} (hk : k ∈ E)
    (hbefore : slots.content before k = none) (hafter : slots.content after k ≠ none) :
    (slots.empty E after).length < (slots.empty E before).length := by
  have hfilter : slots.empty E after =
      (slots.empty E before).filter fun j => (slots.content after j).isNone := by
    rw [empty, empty, List.filter_filter]
    refine List.filter_congr fun j _ => ?_
    cases hj : slots.content after j with
    | none => simp [h.eq_none hj]
    | some v => simp
  rw [hfilter, List.length_filter_lt_length_iff_exists]
  exact ⟨k, by simp [empty, hk, hbefore], by simpa using hafter⟩

section

variable {functions : Handle → Option FunctionDefinition} {e : Expr} {depth : Nat}
  {context : Object} {resolve : Session.Resolver σ}
  (hf : ∀ f d, functions f = some d → d.body.Composed Literal.Fixed) (he : e.Composed Literal.Fixed)
  (hE : ∀ k, slots.Missing (slots.content host) k → k ∈ E)
  (hserves : slots.Serves g (world.formula functions depth e) context resolve host)
include hf he hE hserves

/-- Every round of a run takes one of the empty slots. -/
theorem course_filled {es : List (Evaluation String σ)} {before : σ}
    (h : Session.Course (world.formula functions depth e) origin context resolve host es before) :
    slots.Filled g host before ∧
      es.length + (slots.empty E before).length ≤ (slots.empty E host).length := by
  induction h with
  | start => exact ⟨.refl slots g host, by simp⟩
  | @next es before after ev hes hev hv hp hr ih =>
    obtain ⟨hfilled, hcard⟩ := ih
    obtain ⟨after', hr', hassigned, r, hrp, hprogress⟩ := hserves es before ev hes hev hv
    obtain rfl : after = after' := by
      rw [hr] at hr'
      exact congrArg Prod.snd hr'
    obtain ⟨hcontent, hmissing⟩ := slots.evaluate_missing hf he hev
    obtain ⟨hnone, hslot⟩ := hmissing r hrp
    have hstep : slots.Filled g before after := by simpa only [Filled, hcontent] using hassigned
    have hlt := hstep.empty_lt (hE _ ⟨hfilled.eq_none hnone, hslot⟩) hnone hprogress
    refine ⟨hfilled.trans hstep, ?_⟩
    rw [List.length_append, List.length_singleton]
    omega

/-- The passes of a run all end, each of them lags behind the pass on the completed host, and there
are at most as many of them as there are empty slots. -/
theorem course_lags (hfull : slots.Completes g host full) {ev : Evaluation String σ}
    (hev : (world.formula functions depth e).evaluate origin context full = some ev)
    {es : List (Evaluation String σ)} {before : σ}
    (h : Session.Course (world.formula functions depth e) origin context resolve host es before) :
    es.length ≤ E.length ∧ ∃ e',
      (world.formula functions depth e).evaluate origin context before = some e' ∧
      Lags e'.value e'.journal ev.value ev.journal := by
  obtain ⟨hfilled, hlength⟩ := course_filled hf he hE hserves h
  have hle : (slots.empty E host).length ≤ E.length := List.length_filter_le _ E
  exact ⟨by omega, slots.supplements.evaluate_lags hf he (hfilled.below hfull) hev⟩

omit hE hserves in
/-- Filling all that is asked for with the same value serves every run in a workbook. -/
theorem serves_pending {w : Workbook} (h : w.Placed origin) (v : Value) (host : Cells) :
    (w.slots h).Serves (fun _ => v) (w.world.formula functions depth e) context
      (Resolution.resolver [⟨[], some (.value v), none⟩]) host := by
  intro es before ev hes hev hv
  obtain ⟨hcontent, hmissing⟩ := (w.slots h).evaluate_missing hf he hev
  have hpending := (World.evaluate_suspended_iff hf he hev).mp hv
  exact ⟨_, Resolution.resolver_pending v es.length ev.pending ev.host,
    Resolution.fills_pending h v hpending (hcontent ▸ hmissing)⟩

end

/-- If the pass on the completed host ends and the rounds of a run fill slots as they are assigned
there, one of those asked for each time, then the run gives the value of that pass, after at most as
many passes as there are empty slots, and one more. -/
theorem run_complete (slots : Slots world origin S)
    (functions : Handle → Option FunctionDefinition) (e : Expr)
    (hf : ∀ f d, functions f = some d → d.body.Composed Literal.Fixed)
    (he : e.Composed Literal.Fixed) (depth : Nat) (context : Object) (g : S → Value)
    (host full : σ) (hfull : slots.Completes g host full) (ev : Evaluation String σ)
    (hev : (world.formula functions depth e).evaluate origin context full = some ev)
    (E : List S) (hE : ∀ k, slots.Missing (slots.content host) k → k ∈ E)
    (resolve : Session.Resolver σ)
    (hserves : slots.Serves g (world.formula functions depth e) context resolve host)
    (s : Session String σ) (hs : s.formula = world.formula functions depth e)
    (hmax : E.length + 1 ≤ s.maxPasses) :
    ∃ v t, ev.value = .ready v ∧ s.run origin context resolve host = some t ∧
      t.result = .ok v ∧ t.session.stage = .finished v ∧ t.session.passes ≤ E.length + 1 := by
  obtain ⟨formula, maxPasses, passes, stage⟩ := s
  obtain rfl : formula = world.formula functions depth e := hs
  have hends : ¬ Session.Hangs ⟨world.formula functions depth e, maxPasses, passes, stage⟩ resolve
      origin context host := by
    rintro ⟨es, before, hes, -, hnone⟩
    obtain ⟨-, e', he', -⟩ := course_lags hf he hE hserves hfull hev hes
    exact Option.some_ne_none e' (he'.symm.trans hnone)
  obtain ⟨t, ht, es, before, e', hes, he', -, hc⟩ := Session.run_ends hends
  obtain ⟨hlength, _, he'', hlags⟩ := course_lags hf he hE hserves hfull hev hes
  obtain rfl := Option.some.inj (he'.symm.trans he'')
  cases hc with
  | @value v hv =>
    rw [hv] at hlags
    exact ⟨v, _, hlags.of_ready.1, ht, rfl, rfl, Nat.succ_le_succ hlength⟩
  | stalled hv hp => exact absurd hp ((World.evaluate_suspended_iff hf he he').mp hv)
  | unresolved hv hp hr =>
    obtain ⟨after, hr', -⟩ := hserves es before e' hes he' hv
    rw [hr] at hr'
    simp at hr'
  | limit hv hp hr hn =>
    obtain ⟨hlast, -⟩ := course_lags hf he hE hserves hfull hev (hes.next he' hv hp hr)
    rw [List.length_append, List.length_singleton] at hlast
    dsimp only at hmax hn
    omega

theorem run_complete_of_text :
    let w : Workbook := ⟨[("sheet", ⟨none, none, [], some (.slot "a")⟩)], []⟩
    let e : Expr := .text (.read .context (.field "b") (.value (.text "")))
    let s : Session String Cells := .new (w.formula e) 2
    ∃ t, s.run "" (.host ⟨"sheet", 0⟩)
        (Resolution.resolver [⟨[], some (.value (.text "x")), none⟩]) .empty = some t ∧
      t.result = .ok (.text "x") ∧ t.session.passes ≤ 2 := by
  intro w e s
  have hresponse : ∀ handle property, w.response handle property = .slot "a" ∨
      w.response handle property = .value (.value (.builtin .notAnObject)) := by
    intro handle property
    simp only [w, Workbook.response, List.lookup_cons, List.lookup_nil]
    cases handle.name == "sheet" <;> cases property <;> simp [ObjectDefinition.response]
  have hplaced : w.Placed "" := by
    intro handle property
    rcases hresponse handle property with h | h <;> rw [h] <;> rfl
  have hslot : ∀ handle property, (w.slots hplaced).slot handle property = .slot "a" ∨
      (w.slots hplaced).slot handle property = .fixed (.builtin .notAnObject) := by
    intro handle property
    rcases hresponse handle property with h | h <;>
      simp [Workbook.slots, h, Response.place]
  have he : e.Composed Literal.Fixed := .text (.read _ .context ⟨_, rfl⟩)
  have hf : ∀ f d, (fun handle : Handle => w.functions.lookup handle.name) f = some d →
      d.body.Composed Literal.Fixed := by
    intro f d hd
    contradiction
  have hfull : (w.slots hplaced).Completes (fun _ => .text "x") .empty
      (Cells.empty.put "a" (some (.text "x"))) := by
    intro handle property
    rcases hslot handle property with h | h <;> rw [h] <;> rfl
  have hE : ∀ k, (w.slots hplaced).Missing ((w.slots hplaced).content .empty) k →
      k ∈ [Place.slot "a"] := by
    rintro k ⟨hnone, handle, property, rfl⟩
    rcases hslot handle property with h | h
    · simp [h]
    · rw [h] at hnone
      contradiction
  have hev : ∃ ev, (w.formula e).evaluate "" (.host ⟨"sheet", 0⟩)
      (Cells.empty.put "a" (some (.text "x"))) = some ev ∧ ev.value = .ready (.text "x") :=
    ⟨_, rfl, rfl⟩
  obtain ⟨ev, hev, hvalue⟩ := hev
  obtain ⟨v, t, hv, ht, hresult, -, hpasses⟩ := run_complete (w.slots hplaced) _ e
    hf he _ _ _ _ _ hfull ev hev _ hE _ (serves_pending hf he hplaced (.text "x") .empty) s rfl
    (by simp [s, Session.new])
  obtain rfl := Suspendable.ready.inj (hvalue.symm.trans hv)
  exact ⟨t, ht, hresult, hpasses⟩

end Slots

end ResumableFormulas
