import ResumableFormulas.Proofs.Pass.Application
import ResumableFormulas.Proofs.Workbook.Sheet

/-! # Arguments that are discovered one by one

An application runs its arguments up to the first one that is not ready, so a pass asks for the
first empty slot only. What it takes to fill the slots in this way is a pass for each of them, in
the order in which the arguments read them first, and one more for the value.
-/
namespace ResumableFormulas
open Pass

/-- A field of the context that is read. -/
structure FieldReading where
  name : String
  fallback : Value

variable {O σ S : Type} {host : Host O σ} {origin : O} {handle : Handle} {stable : σ → Prop}

def FieldReading.run (host : Host O σ) (origin : O) (context : Object) (r : FieldReading) :
    Pass O σ (Suspendable Value) :=
  readProperty host origin (.ready (.object context)) (.field r.name) r.fallback

/-- A value that comes to a result when it is applied if it is a function at all. -/
def Host.Applicable (host : Host O σ) (origin : O) (stable : σ → Prop) (t : Value) : Prop :=
  ∀ f, t = .function f → ∀ arguments p, stable p.host →
    ∃ result q, host.call f origin arguments p = some (.ready result, q)

theorem applyTo_ready (fallback : Value) {t : Value} (ht : host.Applicable origin stable t)
    (arguments : List Value) {p : Progress O σ} (hp : stable p.host) :
    ∃ result q, applyTo host origin fallback t arguments p = some (.ready result, q) := by
  cases t with
  | scalar | object => exact ⟨fallback, p, rfl⟩
  | function f =>
    obtain ⟨result, q, hcall⟩ := ht f rfl arguments (p.after [.called f origin arguments] p.host) hp
    exact ⟨result, _, by rw [applyTo, invoke_eq, hcall]; rfl⟩

namespace Sheet

variable (sheet : Sheet host origin handle stable S)

/-- A computation of what is to be applied. It asks for nothing, and neither does the value that it
comes to when that is taken for a function. -/
def Targets (content : S → Option Value) (target : Pass O σ (Suspendable Value)) : Prop :=
  sheet.Discovers content []
    (fun v => sheet.Discovers content [] (host.Applicable origin stable) (callee host origin v))
    target

/-- The empty slots that are read, in the order in which they are read first. -/
def missingOnce [DecidableEq S] (readings : List FieldReading) (content : S → Option Value) :
    List S :=
  (sheet.missing (readings.map (·.name)) content).eraseDups

/-- One step for each empty slot. -/
def planOnce [DecidableEq S] (readings : List FieldReading) (content : S → Option Value) :
    List (List S) :=
  (sheet.missingOnce readings content).map fun k => [k]

variable {sheet} {content : S → Option Value}

theorem Discovers.resolves {α : Type} {post : α → Prop} {x : Pass O σ (Suspendable α)}
    (h : sheet.Discovers content [] post x) {p : Progress O σ} (hp : sheet.At content p.host) :
    ∃ a q, x p = some (.ready a, q) ∧ post a ∧ q.pending = p.pending ∧
      sheet.At content q.host := by
  obtain ⟨r, q, added, hx, hr, hpending, hadded, hq⟩ := h p hp
  obtain rfl := List.map_eq_nil_iff.mp hadded
  rw [List.append_nil] at hpending
  cases hr with
  | ready ha => exact ⟨_, q, hx, ha, hpending, hq⟩
  | suspended h => exact absurd rfl h

/-- Arguments are run up to the first one that reads an empty slot. -/
theorem discovers_collect (sheet : Sheet host origin handle stable S) (content : S → Option Value)
    (readings : List FieldReading) :
    sheet.Discovers content ((sheet.missing (readings.map (·.name)) content).take 1)
      (fun _ => True) (Suspendable.collect (readings.map (·.run host origin (.host handle)))) := by
  induction readings with
  | nil => exact .ready trivial
  | cons r rest ih =>
    have hr : sheet.Discovers content (sheet.missing [r.name] content)
        (fun v => content (sheet.slot r.name) = some v) (r.run host origin (.host handle)) :=
      sheet.discovers_ask content r.name
    -- An empty slot ends the scan, and a filled one leaves it to the other arguments.
    cases hc : content (sheet.slot r.name) with
    | none =>
      have hmissing : sheet.missing [r.name] content = [sheet.slot r.name] := by simp [missing, hc]
      have htake : (sheet.missing ((r :: rest).map (·.name)) content).take 1 =
          [sheet.slot r.name] := by simp [missing, hc]
      rw [hmissing] at hr
      rw [htake]
      refine Asks.bind_quiet hr fun v hv => ?_
      cases hv with
      | suspended h => exact .pure (.suspended h)
    | some w =>
      have hmissing : sheet.missing [r.name] content = [] := by simp [missing, hc]
      have hrest : sheet.missing ((r :: rest).map (·.name)) content =
          sheet.missing (rest.map (·.name)) content := by simp [missing, hc]
      rw [hmissing] at hr
      rw [hrest]
      generalize (sheet.missing (rest.map (·.name)) content).take 1 = asked at ih ⊢
      refine Asks.bind hr fun v hv => ?_
      cases hv with
      | ready hv =>
        refine Asks.bind_quiet ih fun values hvalues => ?_
        cases hvalues with
        | ready _ => exact .pure (.ready trivial)
        | suspended h => exact .pure (.suspended h)
      | suspended h => exact absurd rfl h

section

variable {target : Pass O σ (Suspendable Value)} {readings : List FieldReading} {fallback : Value}
  {formula : Formula O σ} (htarget : ∀ content, sheet.Targets content target)
  (hformula : formula origin (.host handle) = do
    apply host origin (← target) (readings.map (·.run host origin (.host handle))) fallback)

include htarget hformula in
/-- An application has a value unless one of its arguments reads an empty slot. -/
theorem apply_starts [DecidableEq S] {s : σ} (hs : sheet.At content s) :
    ∃ e, formula.evaluate origin (.host handle) s = some e ∧
      sheet.Starts content e (sheet.planOnce readings content) := by
  obtain ⟨v, p₁, hx, hv, hpending₁, hp₁⟩ := (htarget content).resolves (p := ⟨s, [], []⟩) hs
  obtain ⟨t, p₂, hcallee, ht, hpending₂, hp₂⟩ := hv.resolves hp₁
  obtain ⟨r, q, added, hcollect, hr, hpending, hadded, hq⟩ :=
    sheet.discovers_collect content readings p₂ hp₂
  have hformula_eq : formula origin (.host handle) ⟨s, [], []⟩ =
      (r.andThen (applyTo host origin fallback t)) q := by
    rw [hformula, bind_of_eq_some hx, apply_eq, Suspendable.andThen_ready,
      bind_of_eq_some hcallee, Suspendable.andThen_ready, bind_of_eq_some hcollect]
  unfold planOnce missingOnce
  cases hmissing : sheet.missing (readings.map (·.name)) content with
  | nil =>
    rw [hmissing] at hr
    cases hr with
    | ready _ =>
      obtain ⟨result, last, happly⟩ := applyTo_ready fallback ht _ hq.1
      exact ⟨⟨_, last.pending, last.journal, last.host⟩,
        Formula.evaluate_eq_some_iff.mpr (hformula_eq.trans happly), .value rfl⟩
    | suspended h => exact absurd rfl h
  | cons k ks =>
    rw [hmissing] at hr hadded
    cases hr with
    | suspended h =>
      refine ⟨⟨_, q.pending, q.journal, q.host⟩, Formula.evaluate_eq_some_iff.mpr hformula_eq, ?_⟩
      have hsubject : q.pending.map sheet.subject = [k] := by
        rw [hpending, hpending₂, hpending₁]
        exact hadded
      rw [List.eraseDups_cons, List.map_cons]
      exact .requests rfl hsubject (List.cons_ne_nil k []) hq _

theorem FillsExactly.missing_eq [DecidableEq S] {pending : List Request} {before after : σ}
    (h : sheet.FillsExactly pending before after) (names : List String) :
    sheet.missing names (sheet.content after) =
      (sheet.missing names (sheet.content before)).filter (· ∉ pending.map sheet.subject) := by
  rw [missing, missing, List.filter_filter]
  refine List.filter_congr fun k _ => ?_
  rw [Bool.eq_iff_iff]
  simpa [and_comm] using h.2 k

theorem advances_planOnce [DecidableEq S] :
    sheet.Advances (sheet.planOnce readings) sheet.FillsExactly := by
  rintro pending before after rest hbefore hplan hround
  refine ⟨hround.1 hbefore, ?_⟩
  rw [planOnce, missingOnce] at hplan ⊢
  rw [hround.missing_eq]
  cases hmissing : sheet.missing (readings.map (·.name)) (sheet.content before) with
  | nil => simp [hmissing] at hplan
  | cons k ks =>
    -- Once the first slot is filled, all its later occurrences are gone as well.
    rw [hmissing, List.eraseDups_cons, List.map_cons] at hplan
    obtain ⟨hpending, rfl⟩ := List.cons.inj hplan
    rw [← hpending, List.filter_cons_of_neg (by simp)]
    congr 2
    exact List.filter_congr fun j _ => by rw [Bool.eq_iff_iff]; simp

/-- The empty slots among the arguments of an application are discovered one by one. If every round
fills just what it is asked for, then it takes a pass for each of the slots, in the order in which
they are read first, and one more for the value. A lower limit is reached before there is one. -/
theorem arguments_discovered_one_by_one [DecidableEq S]
    (sheet : Sheet host origin handle stable S) (target : Pass O σ (Suspendable Value))
    (htarget : ∀ content, sheet.Targets content target) (readings : List FieldReading)
    (fallback : Value) (s : Session O σ) (hs : s.formula origin (.host handle) = do
      apply host origin (← target) (readings.map (·.run host origin (.host handle))) fallback)
    (start : σ) (hstart : stable start) (resolve : Session.Resolver σ)
    (hserved : s.Served origin (.host handle) resolve start sheet.FillsExactly) :
    ∃ t, s.run origin (.host handle) resolve start = some t ∧
      ((sheet.missingOnce readings (sheet.content start)).length + 1 ≤ s.maxPasses →
        (∃ v, t.result = .ok v) ∧
        t.session.passes = (sheet.missingOnce readings (sheet.content start)).length + 1 ∧
        t.rounds.map (·.map sheet.subject) =
          (sheet.missingOnce readings (sheet.content start)).map fun k => [k]) ∧
      (1 ≤ s.maxPasses →
        s.maxPasses ≤ (sheet.missingOnce readings (sheet.content start)).length →
        t.result = .error (.passLimit s.maxPasses) ∧ t.rounds.length = s.maxPasses ∧
        t.rounds.map (·.map sheet.subject) =
          ((sheet.missingOnce readings (sheet.content start)).take s.maxPasses).map
            fun k => [k]) := by
  have hplan : sheet.Plans s.formula (sheet.planOnce readings) := fun _ _ hat =>
    apply_starts htarget hs hat
  obtain ⟨t, hrun, hvalue, hlimit⟩ :=
    sheet.run_of_plan hplan advances_planOnce hstart hserved
  have hlength : (sheet.planOnce readings (sheet.content start)).length =
      (sheet.missingOnce readings (sheet.content start)).length := List.length_map _
  rw [hlength] at hvalue hlimit
  refine ⟨t, hrun, ?_, ?_⟩
  · intro hmax
    obtain ⟨hpasses, hrounds, _, _, v, _, _, _, _, hresult⟩ := hvalue (by omega)
    exact ⟨⟨v, hresult⟩, hpasses, hrounds⟩
  · intro hone hmax
    rw [Nat.max_eq_right hone] at hlimit
    obtain ⟨hresult, hcount, hrounds⟩ := hlimit hmax
    rw [planOnce, ← List.map_take] at hrounds
    exact ⟨hresult, hcount, hrounds⟩

end

/-- Every function gives the number of its arguments. -/
def counting : Caller Cells := fun _ _ arguments =>
  pure (.ready (.number (Binary64.ofNat arguments.length)))

theorem arguments_discovered_one_by_one_of_repetition :
    let host := Workbook.pair.world.host counting
    let readings : List FieldReading := [⟨"b", .text ""⟩, ⟨"a", .text ""⟩, ⟨"b", .text ""⟩]
    let formula : Formula String Cells := fun origin context => do
      apply host origin (← pure (.ready (.function ⟨"count", 0⟩)))
        (readings.map (·.run host origin context)) (.text "")
    let resolve := Resolution.resolver [⟨[], some (.value (.text "6")), none⟩]
    (∃ t v, (Session.new formula 3).run "" (.host ⟨"pair", 0⟩) resolve .empty = some t ∧
      t.result = .ok v ∧ t.session.passes = 3 ∧
      t.rounds.map (·.map Place.ofRequest) = [[.slot "b"], [.slot "a"]]) ∧
    ∃ t, (Session.new formula 2).run "" (.host ⟨"pair", 0⟩) resolve .empty = some t ∧
      t.result = .error (.passLimit 2) ∧ t.rounds.length = 2 := by
  intro host readings formula resolve
  let columns := Workbook.pairColumns ""
  let sheet := columns.sheet counting fun _ => True
  have htarget : ∀ content, sheet.Targets content (pure (.ready (.function ⟨"count", 0⟩))) :=
    fun _ => .ready (.ready fun _ _ _ _ _ => ⟨_, _, rfl⟩)
  have hserved : ∀ maxPasses, (Session.new formula maxPasses).Served "" (.host ⟨"pair", 0⟩) resolve
      .empty sheet.FillsExactly := fun maxPasses =>
    Resolution.served_pending columns counting (.text "6") (fun _ _ _ => trivial) _ _ _
  have hmissing : sheet.missingOnce readings (sheet.content .empty) = [.slot "b", .slot "a"] := rfl
  have hrun := fun maxPasses => arguments_discovered_one_by_one sheet _ htarget readings (.text "")
    (.new formula maxPasses) rfl .empty trivial resolve (hserved maxPasses)
  rw [hmissing] at hrun
  obtain ⟨t, ht, hvalue, -⟩ := hrun 3
  obtain ⟨⟨v, hresult⟩, hpasses, hrounds⟩ := hvalue (Nat.le_refl 3)
  obtain ⟨t', ht', -, hlimit⟩ := hrun 2
  obtain ⟨hrefused, hcount, -⟩ := hlimit (Nat.le_succ 1) (Nat.le_refl 2)
  exact ⟨⟨t, v, ht, hresult, hpasses, hrounds⟩, t', ht', hrefused, hcount⟩

end Sheet

end ResumableFormulas
