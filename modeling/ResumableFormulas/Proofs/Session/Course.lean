import ResumableFormulas.Session.Basic

/-! # The course of a run

A run goes through passes that are suspended on requests which are then resolved, and ends with a
pass of which there is no next one. It goes from one pass to the next by resuming its session, which
is refused at the limit. What one pass makes of its evaluation is said once, and so is what a whole
run can come to; the rest is an induction on the number of passes left.
-/
namespace ResumableFormulas

namespace Evaluation

variable {O σ : Type}

/-- The result of the `n`-th pass. -/
def result (e : Evaluation O σ) (n : Nat) : Except SessionError Unit :=
  match e.value, e.pending with
  | .suspended, [] => .error (.stalled n)
  | _, _ => .ok ()

/-- The stage in which a pass leaves its session. -/
def stage (e : Evaluation O σ) : Stage :=
  match e.value, e.pending with
  | .ready v, _ => .finished v
  | .suspended, [] => .idle
  | .suspended, pending => .waiting pending

variable {e : Evaluation O σ}

theorem result_of_ready {v : Value} (hv : e.value = .ready v) (n : Nat) : e.result n = .ok () := by
  simp only [result, hv]

theorem stage_of_ready {v : Value} (hv : e.value = .ready v) : e.stage = .finished v := by
  simp only [stage, hv]

theorem result_of_stalled (hv : e.value = .suspended) (hp : e.pending = []) (n : Nat) :
    e.result n = .error (.stalled n) := by
  simp only [result, hv, hp]

theorem stage_of_stalled (hv : e.value = .suspended) (hp : e.pending = []) : e.stage = .idle := by
  simp only [stage, hv, hp]

theorem result_of_waiting (hp : e.pending ≠ []) (n : Nat) : e.result n = .ok () := by
  unfold result
  split
  · contradiction
  · rfl

theorem stage_of_waiting (hv : e.value = .suspended) (hp : e.pending ≠ []) :
    e.stage = .waiting e.pending := by
  unfold stage
  rw [hv]
  cases h : e.pending with
  | nil => contradiction
  | cons r rest => rfl

end Evaluation

namespace Turn

variable {O σ α : Type}

/-- A turn of which the requests were handed out to be resolved. -/
def handedOut (t : Turn O σ α) (pending : List Request) (host : σ) : Turn O σ α :=
  { t with host := host, rounds := t.rounds ++ [pending] }

/-- A turn and the resumption after it. -/
def followedBy (t : Turn O σ α) (next : Turn O σ Unit) : Turn O σ Unit :=
  { next with journal := t.journal ++ next.journal, rounds := t.rounds }

end Turn

namespace Session

variable {O σ : Type}

/-- A session after some passes, in a stage. -/
def after (s : Session O σ) (passes : Nat) (stage : Stage) : Session O σ :=
  { s with passes := passes, stage := stage }

theorem pass_eq (s : Session O σ) (origin : O) (context : Object) (host : σ) :
    s.pass origin context host = (s.formula.evaluate origin context host).map fun e =>
      ⟨e.result (s.passes + 1), s.after (s.passes + 1) e.stage, e.host, e.journal, []⟩ := by
  unfold pass
  congr 1
  funext e
  cases hv : e.value with
  | ready v => simp only [Evaluation.result, Evaluation.stage, hv, after]
  | suspended =>
    cases hp : e.pending <;> simp only [Evaluation.result, Evaluation.stage, hv, hp, after]

section

variable {s : Session O σ} {origin : O} {context : Object} {host : σ}

theorem resume_of_not_waiting (h : s.stage.isWaiting = false) :
    s.resume origin context host = some (s.refuse host .notWaiting) := by
  cases hstage : s.stage with
  | waiting pending => simp [hstage, Stage.isWaiting] at h
  | idle => simp only [resume, hstage]
  | finished v => simp only [resume, hstage]

theorem resume_of_spent (h : s.stage.isWaiting = true) (hlimit : s.maxPasses ≤ s.passes) :
    s.resume origin context host = some (s.refuse host (.passLimit s.passes)) := by
  cases hstage : s.stage with
  | waiting pending => simp only [resume, hstage, if_pos hlimit]
  | idle => simp [hstage, Stage.isWaiting] at h
  | finished v => simp [hstage, Stage.isWaiting] at h

theorem resume_of_allowed (h : s.stage.isWaiting = true) (hlimit : s.passes < s.maxPasses) :
    s.resume origin context host = s.pass origin context host := by
  cases hstage : s.stage with
  | waiting pending => simp only [resume, hstage, if_neg (Nat.not_le.mpr hlimit)]
  | idle => simp [hstage, Stage.isWaiting] at h
  | finished v => simp [hstage, Stage.isWaiting] at h

/-- Resuming is refused without need of a pass, or it is a pass. -/
theorem resume_cases (s : Session O σ) (origin : O) (context : Object) (host : σ) :
    (s.stage.isWaiting = false ∧ s.resume origin context host = some (s.refuse host .notWaiting)) ∨
    (s.stage.isWaiting = true ∧ s.maxPasses ≤ s.passes ∧
      s.resume origin context host = some (s.refuse host (.passLimit s.passes))) ∨
    (s.stage.isWaiting = true ∧ s.passes < s.maxPasses ∧
      s.resume origin context host = s.pass origin context host) := by
  cases hwaiting : s.stage.isWaiting with
  | false => exact .inl ⟨rfl, resume_of_not_waiting hwaiting⟩
  | true =>
    rcases Nat.lt_or_ge s.passes s.maxPasses with hlimit | hlimit
    · exact .inr (.inr ⟨rfl, hlimit, resume_of_allowed hwaiting hlimit⟩)
    · exact .inr (.inl ⟨rfl, hlimit, resume_of_spent hwaiting hlimit⟩)

end

section

variable {resolve : Resolver σ} {origin : O} {context : Object} {t : Turn O σ Unit}

theorem settle_of_error {e : SessionError} (h : t.result = .error e) (left : Nat) :
    settle resolve origin context left t = some (conclude t (.error e)) := by
  unfold settle
  simp only [h]

theorem settle_of_finished {v : Value} (h : t.result = .ok ())
    (hstage : t.session.stage = .finished v) (left : Nat) :
    settle resolve origin context left t = some (conclude t (.ok v)) := by
  unfold settle
  simp only [h, hstage]

section

variable {pending : List Request} {host : σ} (h : t.result = .ok ())
  (hstage : t.session.stage = .waiting pending)
include h hstage

theorem settle_of_failed_round {reason : String}
    (hr : resolve t.rounds.length pending t.host = (.error reason, host)) (left : Nat) :
    settle resolve origin context left t =
      some (conclude (t.handedOut pending host) (.error (.unresolved reason))) := by
  unfold settle
  simp only [h, hstage, hr]
  rfl

/-- Once its requests are resolved, a run goes on by resuming its session. At the limit that is
refused, and the run ends with the refusal. -/
theorem settle_eq_resume {left : Nat}
    (hr : resolve t.rounds.length pending t.host = (.ok (), host))
    (hleft : left = t.session.maxPasses - t.session.passes) :
    settle resolve origin context left t =
      (t.session.resume origin context host).bind fun next =>
        settle resolve origin context (left - 1) ((t.handedOut pending host).followedBy next) := by
  have hwaiting : t.session.stage.isWaiting = true := by rw [hstage]; rfl
  cases left with
  | zero =>
    have hlimit : t.session.maxPasses ≤ t.session.passes := by omega
    have hend : ((t.handedOut pending host).followedBy
        (t.session.refuse host (.passLimit t.session.passes))).result =
          .error (.passLimit t.session.passes) := rfl
    rw [resume_of_spent hwaiting hlimit, Option.bind_some, settle_of_error hend]
    simp [settle, h, hstage, hr, conclude, Turn.followedBy, Turn.handedOut, refuse]
  | succ left =>
    have hlimit : t.session.passes < t.session.maxPasses := by omega
    rw [resume_of_allowed hwaiting hlimit, settle]
    simp only [h, hstage, hr]
    rfl

end

end

section

variable (formula : Formula O σ) (origin : O) (context : Object) (resolve : Resolver σ) (host : σ)

/-- Passes of a run in a row, each suspended on requests that were then resolved, and the state of
the host to which they lead. -/
inductive Course : List (Evaluation O σ) → σ → Prop where
  | start : Course [] host
  | next {es : List (Evaluation O σ)} {before after : σ} {e : Evaluation O σ}
      (hes : Course es before) (he : formula.evaluate origin context before = some e)
      (hv : e.value = .suspended) (hp : e.pending ≠ [])
      (hr : resolve es.length e.pending e.host = (.ok (), after)) : Course (es ++ [e]) after

end

section

variable (s : Session O σ) (resolve : Resolver σ)

/-- The turn so far, after the passes `es` and the pass `e`. -/
def turnAfter (es : List (Evaluation O σ)) (e : Evaluation O σ) : Turn O σ Unit :=
  ⟨e.result (es.length + 1), s.after (es.length + 1) e.stage, e.host,
    (es ++ [e]).flatMap (·.journal), es.map (·.pending)⟩

/-- What a run comes to that ends with the pass `e` after the passes `es`. -/
inductive Conclusion (es : List (Evaluation O σ)) (e : Evaluation O σ) : Turn O σ Value → Prop where
  | value {v : Value} (hv : e.value = .ready v) : Conclusion es e
      ⟨.ok v, s.after (es.length + 1) (.finished v), e.host, (es ++ [e]).flatMap (·.journal),
        es.map (·.pending)⟩
  | stalled (hv : e.value = .suspended) (hp : e.pending = []) : Conclusion es e
      ⟨.error (.stalled (es.length + 1)), s.after (es.length + 1) .idle, e.host,
        (es ++ [e]).flatMap (·.journal), es.map (·.pending)⟩
  | unresolved {reason : String} {last : σ} (hv : e.value = .suspended) (hp : e.pending ≠ [])
      (hr : resolve es.length e.pending e.host = (.error reason, last)) : Conclusion es e
      ⟨.error (.unresolved reason), s.after (es.length + 1) (.waiting e.pending), last,
        (es ++ [e]).flatMap (·.journal), (es ++ [e]).map (·.pending)⟩
  | limit {last : σ} (hv : e.value = .suspended) (hp : e.pending ≠ [])
      (hr : resolve es.length e.pending e.host = (.ok (), last))
      (hn : es.length + 1 = max 1 s.maxPasses) : Conclusion es e
      ⟨.error (.passLimit (es.length + 1)), s.after (es.length + 1) (.waiting e.pending), last,
        (es ++ [e]).flatMap (·.journal), (es ++ [e]).map (·.pending)⟩

/-- A turn to which a run comes within the passes that it is allowed. -/
def Concludes (origin : O) (context : Object) (host : σ) (t : Turn O σ Value) : Prop :=
  ∃ es before e, Course s.formula origin context resolve host es before ∧
    s.formula.evaluate origin context before = some e ∧ es.length + 1 ≤ max 1 s.maxPasses ∧
    Conclusion s resolve es e t

/-- One of the passes that a run is allowed does not end. -/
def Hangs (origin : O) (context : Object) (host : σ) : Prop :=
  ∃ es before, Course s.formula origin context resolve host es before ∧
    es.length < max 1 s.maxPasses ∧ s.formula.evaluate origin context before = none

end

variable {s : Session O σ} {origin : O} {context : Object} {resolve : Resolver σ} {host : σ}
  {es : List (Evaluation O σ)} {e : Evaluation O σ}

theorem turnAfter_rounds_length (s : Session O σ) (es : List (Evaluation O σ))
    (e : Evaluation O σ) : (s.turnAfter es e).rounds.length = es.length :=
  List.length_map ..

theorem turnAfter_result (hp : e.pending ≠ []) : (s.turnAfter es e).result = .ok () :=
  Evaluation.result_of_waiting hp _

section

variable (hv : e.value = .suspended) (hp : e.pending ≠ [])
include hv hp

theorem turnAfter_stage : (s.turnAfter es e).session.stage = .waiting e.pending :=
  Evaluation.stage_of_waiting hv hp

theorem turnAfter_isWaiting : (s.turnAfter es e).session.stage.isWaiting = true := by
  rw [turnAfter_stage hv hp]
  rfl

theorem turnAfter_handedOut (host : σ) : (s.turnAfter es e).handedOut e.pending host =
    ⟨.ok (), s.after (es.length + 1) (.waiting e.pending), host, (es ++ [e]).flatMap (·.journal),
      (es ++ [e]).map (·.pending)⟩ := by
  simp only [Turn.handedOut, turnAfter, Evaluation.result_of_waiting hp,
    Evaluation.stage_of_waiting hv hp, List.map_append, List.map_cons, List.map_nil]

/-- What a run concludes with if it is refused to resume its session. -/
theorem conclude_refused (host : σ) (error : SessionError) :
    conclude (((s.turnAfter es e).handedOut e.pending host).followedBy
      ((s.turnAfter es e).session.refuse host error)) (.error error) =
        (⟨.error error, s.after (es.length + 1) (.waiting e.pending), host,
          (es ++ [e]).flatMap (·.journal), (es ++ [e]).map (·.pending)⟩ : Turn O σ Value) := by
  rw [turnAfter_handedOut hv hp]
  simp [conclude, Turn.followedBy, refuse, turnAfter, Evaluation.stage_of_waiting hv hp]

theorem resume_turnAfter_of_spent (hlimit : s.maxPasses ≤ es.length + 1) :
    (s.turnAfter es e).session.resume origin context host =
      some ((s.turnAfter es e).session.refuse host (.passLimit (es.length + 1))) :=
  resume_of_spent (turnAfter_isWaiting hv hp) hlimit

theorem resume_turnAfter_of_allowed (hlimit : es.length + 1 < s.maxPasses) :
    ((s.turnAfter es e).session.resume origin context host).map
        ((s.turnAfter es e).handedOut e.pending host).followedBy =
      (s.formula.evaluate origin context host).map (s.turnAfter (es ++ [e])) := by
  have hresume : (s.turnAfter es e).session.resume origin context host =
      (s.turnAfter es e).session.pass origin context host :=
    resume_of_allowed (turnAfter_isWaiting hv hp) hlimit
  rw [hresume, pass_eq, Option.map_map]
  congr 1
  funext e'
  simp [turnAfter, after, Turn.followedBy, Turn.handedOut]

theorem settle_of_unresolved {reason : String} {last : σ}
    (hr : resolve es.length e.pending e.host = (.error reason, last)) (left : Nat) :
    settle resolve origin context left (s.turnAfter es e) = some
      ⟨.error (.unresolved reason), s.after (es.length + 1) (.waiting e.pending), last,
        (es ++ [e]).flatMap (·.journal), (es ++ [e]).map (·.pending)⟩ := by
  rw [← turnAfter_rounds_length s es e] at hr
  rw [settle_of_failed_round (turnAfter_result hp) (turnAfter_stage hv hp) hr,
    turnAfter_handedOut hv hp]
  rfl

section

variable {next : σ} {left : Nat} (hr : resolve es.length e.pending e.host = (.ok (), next))
include hr

theorem settle_turnAfter_eq_resume (hleft : left = s.maxPasses - (es.length + 1)) :
    settle resolve origin context left (s.turnAfter es e) =
      ((s.turnAfter es e).session.resume origin context next).bind fun t =>
        settle resolve origin context (left - 1)
          (((s.turnAfter es e).handedOut e.pending next).followedBy t) := by
  rw [← turnAfter_rounds_length s es e] at hr
  exact settle_eq_resume (turnAfter_result hp) (turnAfter_stage hv hp) hr hleft

theorem settle_of_limit (hlimit : s.maxPasses ≤ es.length + 1) :
    settle resolve origin context 0 (s.turnAfter es e) = some
      ⟨.error (.passLimit (es.length + 1)), s.after (es.length + 1) (.waiting e.pending), next,
        (es ++ [e]).flatMap (·.journal), (es ++ [e]).map (·.pending)⟩ := by
  rw [settle_turnAfter_eq_resume hv hp hr (by omega), resume_turnAfter_of_spent hv hp hlimit,
    Option.bind_some, settle_of_error rfl, conclude_refused hv hp]

theorem settle_of_resolved (hleft : left + 1 = s.maxPasses - (es.length + 1)) :
    settle resolve origin context (left + 1) (s.turnAfter es e) =
      (s.formula.evaluate origin context next).bind fun e' =>
        settle resolve origin context left (s.turnAfter (es ++ [e]) e') := by
  let followed := ((s.turnAfter es e).handedOut e.pending next).followedBy
  have hnext : ((s.turnAfter es e).session.resume origin context next).map followed =
      (s.formula.evaluate origin context next).map (s.turnAfter (es ++ [e])) :=
    resume_turnAfter_of_allowed hv hp (by omega)
  rw [settle_turnAfter_eq_resume hv hp hr hleft, Nat.add_sub_cancel]
  calc ((s.turnAfter es e).session.resume origin context next).bind
        (fun t => settle resolve origin context left (followed t))
      = (((s.turnAfter es e).session.resume origin context next).map followed).bind
          (settle resolve origin context left) := Option.bind_map.symm
    _ = (s.formula.evaluate origin context next).bind
          (fun e' => settle resolve origin context left (s.turnAfter (es ++ [e]) e')) := by
        rw [hnext, Option.bind_map]
        rfl

end

end

/-- After a pass a run has come to its conclusion, or its requests are resolved and it makes one
more pass. -/
theorem settle_step {before : σ} {left : Nat}
    (hes : Course s.formula origin context resolve host es before)
    (he : s.formula.evaluate origin context before = some e)
    (hleft : es.length + 1 + left = max 1 s.maxPasses) :
    (∃ t, settle resolve origin context left (s.turnAfter es e) = some t ∧
      Conclusion s resolve es e t) ∨
    ∃ left' next, left = left' + 1 ∧
      Course s.formula origin context resolve host (es ++ [e]) next ∧
      settle resolve origin context left (s.turnAfter es e) =
        (s.formula.evaluate origin context next).bind fun e' =>
          settle resolve origin context left' (s.turnAfter (es ++ [e]) e') := by
  cases hv : e.value with
  | ready v =>
    refine .inl ⟨_, settle_of_finished (Evaluation.result_of_ready hv _)
      (Evaluation.stage_of_ready hv) left, ?_⟩
    simpa only [conclude, turnAfter, Evaluation.stage_of_ready hv] using .value hv
  | suspended =>
    by_cases hp : e.pending = []
    · refine .inl ⟨_, settle_of_error (Evaluation.result_of_stalled hv hp _) left, ?_⟩
      simpa only [conclude, turnAfter, Evaluation.stage_of_stalled hv hp] using .stalled hv hp
    cases hr : resolve es.length e.pending e.host with
    | mk resolved next =>
      cases resolved with
      | error reason =>
        exact .inl ⟨_, settle_of_unresolved hv hp hr left, .unresolved hv hp hr⟩
      | ok u =>
        cases left with
        | zero => exact .inl ⟨_, settle_of_limit hv hp hr (by omega), .limit hv hp hr hleft⟩
        | succ left =>
          exact .inr ⟨left, next, rfl, hes.next he hv hp hr,
            settle_of_resolved hv hp hr (by omega)⟩

/-- A run that has come so far goes on to its conclusion, unless one of its passes does not end. -/
theorem settle_cases {before : σ} {left : Nat}
    (hes : Course s.formula origin context resolve host es before)
    (he : s.formula.evaluate origin context before = some e)
    (hleft : es.length + 1 + left = max 1 s.maxPasses) :
    (settle resolve origin context left (s.turnAfter es e) = none ∧
      Hangs s resolve origin context host) ∨
    ∃ t, settle resolve origin context left (s.turnAfter es e) = some t ∧
      Concludes s resolve origin context host t := by
  -- on the passes left, which `hleft` ties to those that were made
  induction left generalizing es before e with
  | zero =>
    obtain ⟨t, ht, hc⟩ | ⟨left', _, hl, _⟩ := settle_step hes he hleft
    · exact .inr ⟨t, ht, es, before, e, hes, he, by omega, hc⟩
    · omega
  | succ left ih =>
    obtain ⟨t, ht, hc⟩ | ⟨left', next, hl, hnext, hsettle⟩ := settle_step hes he hleft
    · exact .inr ⟨t, ht, es, before, e, hes, he, by omega, hc⟩
    obtain rfl : left = left' := by omega
    have hlength : (es ++ [e]).length = es.length + 1 := by simp
    rw [hsettle]
    cases he' : s.formula.evaluate origin context next with
    | none => exact .inl ⟨rfl, es ++ [e], next, hnext, by omega, he'⟩
    | some e' => exact ih hnext he' (by omega)

theorem start_eq (s : Session O σ) (origin : O) (context : Object) (host : σ) :
    s.start origin context host =
      (s.formula.evaluate origin context host).map (s.turnAfter []) := by
  unfold start
  rw [pass_eq]
  congr 1
  funext e
  simp [turnAfter, after]

theorem run_eq (s : Session O σ) (origin : O) (context : Object) (resolve : Resolver σ)
    (host : σ) : s.run origin context resolve host =
      (s.formula.evaluate origin context host).bind fun e =>
        settle resolve origin context (s.maxPasses - 1) (s.turnAfter [] e) := by
  unfold run
  rw [start_eq, Option.bind_eq_bind, Option.bind_map]
  rfl

theorem run_cases (s : Session O σ) (origin : O) (context : Object) (resolve : Resolver σ)
    (host : σ) :
    (s.run origin context resolve host = none ∧ Hangs s resolve origin context host) ∨
    ∃ t, s.run origin context resolve host = some t ∧
      Concludes s resolve origin context host t := by
  rw [run_eq]
  cases he : s.formula.evaluate origin context host with
  | none => exact .inl ⟨rfl, [], host, .start, by rw [List.length_nil]; omega, he⟩
  | some e => exact settle_cases .start he (by rw [List.length_nil]; omega)

theorem run_ends (hpass : ¬ Hangs s resolve origin context host) :
    ∃ t, s.run origin context resolve host = some t ∧
      Concludes s resolve origin context host t := by
  obtain ⟨-, hh⟩ | h := run_cases s origin context resolve host
  · exact absurd hh hpass
  · exact h

theorem run_concludes {t : Turn O σ Value} (h : s.run origin context resolve host = some t) :
    Concludes s resolve origin context host t := by
  obtain ⟨hn, -⟩ | ⟨t', ht, hc⟩ := run_cases s origin context resolve host
  · rw [hn] at h
    contradiction
  · obtain rfl := Option.some.inj (h.symm.trans ht)
    exact hc

theorem Conclusion.unique {t t' : Turn O σ Value} (h : Conclusion s resolve es e t)
    (h' : Conclusion s resolve es e t') : t = t' := by
  cases h <;> cases h' <;> simp_all

/-- If every pass of a run ends, then so does the run. It makes one pass and then as many more as it
is allowed at most, every resolution but the last one succeeds and is given what the pass before it
left pending, and the run ends in one of four ways. -/
theorem run_outcome (s : Session O σ) (origin : O) (context : Object) (resolve : Resolver σ)
    (host : σ)
    (hpass : ∀ es before, Course s.formula origin context resolve host es before →
      es.length < max 1 s.maxPasses → ∃ e, s.formula.evaluate origin context before = some e) :
    ∃ t es before e, s.run origin context resolve host = some t ∧
      Course s.formula origin context resolve host es before ∧
      s.formula.evaluate origin context before = some e ∧
      t.session.passes = es.length + 1 ∧ t.session.passes ≤ max 1 s.maxPasses ∧
      Conclusion s resolve es e t ∧ (∀ t', Conclusion s resolve es e t' → t' = t) ∧
      t.result ≠ .error .notWaiting := by
  have hends : ¬ Hangs s resolve origin context host := by
    rintro ⟨es, before, hes, hlength, he⟩
    obtain ⟨e, he'⟩ := hpass es before hes hlength
    rw [he] at he'
    contradiction
  obtain ⟨t, ht, es, before, e, hes, he, hbound, hc⟩ := run_ends hends
  have hpasses : t.session.passes = es.length + 1 := by cases hc <;> rfl
  refine ⟨t, es, before, e, ht, hes, he, hpasses, by omega, hc, fun t' h => h.unique hc, ?_⟩
  cases hc <;> simp

theorem run_outcome_of_no_pass_allowed :
    let s : Session String Unit := .new (fun _ _ => Pass.await (.pending ⟨.name "a", 0⟩)) 0
    ∃ t, s.run "" (.host ⟨"sheet", 0⟩) (fun _ _ host => (.ok (), host)) () = some t ∧
      t.session.passes = 1 ∧ t.result = .error (.passLimit 1) := by
  intro s
  obtain ⟨t, es, before, e, ht, hes, he, hpasses, hbound, hc, -, -⟩ :=
    run_outcome s "" (.host ⟨"sheet", 0⟩) (fun _ _ host => (.ok (), host)) ()
      fun es before hes hlength => ⟨_, rfl⟩
  have hone : t.session.passes = 1 := by
    have hmax : s.maxPasses = 0 := rfl
    omega
  obtain rfl := Option.some.inj ht
  exact ⟨_, rfl, hone, rfl⟩

end Session

end ResumableFormulas
