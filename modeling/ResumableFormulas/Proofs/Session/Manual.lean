import ResumableFormulas.Proofs.Session.History

/-! # Driving a session by hand

Instead of being run, a session can be started, and then, as long as it waits, its requests can be
handed out and the session resumed. This comes to the same as a run, pass by pass. A run whose
resolver fails can be taken up in this way where it broke off, and then it goes on as if the
resolver had done what it did and reported no failure.
-/
namespace ResumableFormulas

variable {O σ α : Type}

namespace Session

/-- The resolver that does the same but reports no failure in the round with `k` rounds before it.
-/
def Resolver.relenting (resolve : Resolver σ) (k : Nat) : Resolver σ :=
  fun n pending host =>
    if n = k then (.ok (), (resolve n pending host).2) else resolve n pending host

theorem Resolver.relenting_self (resolve : Resolver σ) (k : Nat) (pending : List Request)
    (host : σ) : resolve.relenting k k pending host = (.ok (), (resolve k pending host).2) :=
  if_pos rfl

theorem Resolver.relenting_of_ne (resolve : Resolver σ) {k n : Nat} (h : n ≠ k) :
    resolve.relenting k n = resolve n := by
  funext pending host
  exact if_neg h

section

variable (resolve : Resolver σ) (origin : O) (context : Object)

/-- What becomes of a turn if, as long as its session waits, the requests are handed out and the
session is resumed; and the passes that this makes. -/
inductive ByHand : Turn O σ Unit → List (Numbered O σ) → Turn O σ Value → Prop where
  | failed {t : Turn O σ Unit} {e : SessionError} (h : t.result = .error e) :
      ByHand t [] (conclude t (.error e))
  | finished {t : Turn O σ Unit} {v : Value} (h : t.result = .ok ())
      (hstage : t.session.stage = .finished v) : ByHand t [] (conclude t (.ok v))
  | unresolved {t : Turn O σ Unit} {pending : List Request} {reason : String} {host : σ}
      (h : t.result = .ok ()) (hstage : t.session.stage = .waiting pending)
      (hr : resolve t.rounds.length pending t.host = (.error reason, host)) :
      ByHand t [] (conclude (t.handedOut pending host) (.error (.unresolved reason)))
  | resumed {t next : Turn O σ Unit} {pending : List Request} {host : σ}
      {made : List (Numbered O σ)} {r : Turn O σ Value}
      (h : t.result = .ok ()) (hstage : t.session.stage = .waiting pending)
      (hr : resolve t.rounds.length pending t.host = (.ok (), host))
      (hnext : t.session.resume origin context host = some next)
      (rest : ByHand ((t.handedOut pending host).followedBy next) made r) :
      ByHand t ((Command.resume origin context).passes t.session host ++ made) r

/-- To resume after a turn, and to go on by hand from there. -/
def ResumedByHand (t : Turn O σ α) (made : List (Numbered O σ)) (r : Turn O σ Value) : Prop :=
  ∃ next made', t.session.resume origin context t.host = some next ∧
    ByHand resolve origin context (t.followedBy next) made' r ∧
    made = (Command.resume origin context).passes t.session t.host ++ made'

/-- To start a session, and to go on by hand from there. -/
def StartedByHand (s : Session O σ) (host : σ) (made : List (Numbered O σ)) (r : Turn O σ Value) :
    Prop :=
  ∃ first made', s.start origin context host = some first ∧
    ByHand resolve origin context first made' r ∧
    made = (Command.start origin context).passes s host ++ made'

end

section

variable {resolve : Resolver σ} {origin : O} {context : Object} {t : Turn O σ Unit}
  {made : List (Numbered O σ)} {r : Turn O σ Value}

theorem byHand_of_error {e : SessionError} (h : t.result = .error e) :
    ByHand resolve origin context t made r ↔ made = [] ∧ r = conclude t (.error e) := by
  constructor
  · intro hby
    cases hby with
    | failed h' =>
      obtain rfl := Except.error.inj (h.symm.trans h')
      exact ⟨rfl, rfl⟩
    | finished h' | unresolved h' | resumed h' => exact absurd (h.symm.trans h') (by simp)
  · rintro ⟨rfl, rfl⟩
    exact .failed h

theorem byHand_of_finished {v : Value} (h : t.result = .ok ())
    (hstage : t.session.stage = .finished v) :
    ByHand resolve origin context t made r ↔ made = [] ∧ r = conclude t (.ok v) := by
  constructor
  · intro hby
    cases hby with
    | failed h' => exact absurd (h.symm.trans h') (by simp)
    | finished _ hstage' =>
      obtain rfl := Stage.finished.inj (hstage.symm.trans hstage')
      exact ⟨rfl, rfl⟩
    | unresolved _ hstage' | resumed _ hstage' =>
      exact absurd (hstage.symm.trans hstage') (by simp)
  · rintro ⟨rfl, rfl⟩
    exact .finished h hstage

section

variable {pending : List Request} {host : σ} (h : t.result = .ok ())
  (hstage : t.session.stage = .waiting pending)
include h hstage

/-- By hand a waiting session is taken to the resolver, and only then resumed. -/
theorem byHand_of_waiting :
    ByHand resolve origin context t made r ↔
      match resolve t.rounds.length pending t.host with
      | (.error reason, host) =>
        made = [] ∧ r = conclude (t.handedOut pending host) (.error (.unresolved reason))
      | (.ok _, host) =>
        ResumedByHand resolve origin context (t.handedOut pending host) made r := by
  constructor
  · intro hby
    cases hby with
    | failed h' => exact absurd (h.symm.trans h') (by simp)
    | finished _ hstage' => exact absurd (hstage.symm.trans hstage') (by simp)
    | unresolved _ hstage' hr =>
      obtain rfl := Stage.waiting.inj (hstage.symm.trans hstage')
      rw [hr]
      exact ⟨rfl, rfl⟩
    | @resumed _ next _ _ made' _ _ hstage' hr hnext rest =>
      obtain rfl := Stage.waiting.inj (hstage.symm.trans hstage')
      rw [hr]
      exact ⟨next, made', hnext, rest, rfl⟩
  · intro hby
    match hr : resolve t.rounds.length pending t.host with
    | (.error reason, host) =>
      rw [hr] at hby
      obtain ⟨rfl, rfl⟩ := hby
      exact .unresolved h hstage hr
    | (.ok _, host) =>
      rw [hr] at hby
      obtain ⟨next, made', hnext, rest, rfl⟩ := hby
      exact .resumed h hstage hr hnext rest

theorem byHand_of_unresolved {reason : String}
    (hr : resolve t.rounds.length pending t.host = (.error reason, host)) :
    ByHand resolve origin context t made r ↔
      made = [] ∧ r = conclude (t.handedOut pending host) (.error (.unresolved reason)) := by
  rw [byHand_of_waiting h hstage, hr]

theorem byHand_of_resolved (hr : resolve t.rounds.length pending t.host = (.ok (), host)) :
    ByHand resolve origin context t made r ↔
      ResumedByHand resolve origin context (t.handedOut pending host) made r := by
  rw [byHand_of_waiting h hstage, hr]

end

/-- Going on by hand depends only on the rounds that are still to come. -/
theorem ByHand.congr {resolve' : Resolver σ} (hby : ByHand resolve origin context t made r)
    (h : ∀ n, t.rounds.length ≤ n → resolve n = resolve' n) :
    ByHand resolve' origin context t made r := by
  induction hby with
  | failed hresult => exact .failed hresult
  | finished hresult hstage => exact .finished hresult hstage
  | unresolved hresult hstage hr =>
    rw [h _ (Nat.le_refl _)] at hr
    exact .unresolved hresult hstage hr
  | @resumed t next pending host made r hresult hstage hr hnext rest ih =>
    rw [h _ (Nat.le_refl _)] at hr
    refine .resumed hresult hstage hr hnext (ih ?_)
    intro n hn
    have hrounds : t.rounds.length + 1 ≤ n := by
      simpa [Turn.followedBy, Turn.handedOut] using hn
    exact h n (by omega)

theorem resumedByHand_congr {resolve' : Resolver σ} {t : Turn O σ α}
    (h : ∀ n, t.rounds.length ≤ n → resolve n = resolve' n) :
    ResumedByHand resolve origin context t made r ↔
      ResumedByHand resolve' origin context t made r := by
  constructor
  · rintro ⟨next, made', hnext, hby, rfl⟩
    exact ⟨next, made', hnext, hby.congr h, rfl⟩
  · rintro ⟨next, made', hnext, hby, rfl⟩
    exact ⟨next, made', hnext, hby.congr fun n hn => (h n hn).symm, rfl⟩

end

section

variable {s : Session O σ} {origin : O} {context : Object} {resolve : Resolver σ} {host : σ}
  {es : List (Evaluation O σ)} {e : Evaluation O σ}

theorem resolved_of_afterRound {n : Nat} {next : σ}
    (h : afterRound resolve (n + 1) e = some next) :
    e.value = .suspended ∧ e.pending ≠ [] ∧ resolve n e.pending e.host = (.ok (), next) := by
  unfold afterRound at h
  cases hstage : e.stage with
  | idle => simp [hstage] at h
  | finished v => simp [hstage] at h
  | waiting pending =>
    obtain ⟨hv, rfl, hp⟩ := Evaluation.pending_of_stage hstage
    cases hr : resolve n e.pending e.host with
    | mk resolved host =>
      cases resolved with
      | error reason => simp [hstage, hr] at h
      | ok u =>
        obtain rfl : host = next := by simpa [hstage, hr] using h
        exact ⟨hv, hp, rfl⟩

/-- A pass with no round after it is the last one, of a run and by hand alike. -/
theorem byHand_of_no_round (h : afterRound resolve (es.length + 1) e = none) (left : Nat) :
    ∃ t, settle resolve origin context left (s.turnAfter es e) = some t ∧
      ∀ made r, ByHand resolve origin context (s.turnAfter es e) made r ↔ made = [] ∧ r = t := by
  cases hv : e.value with
  | ready v =>
    have hresult : (s.turnAfter es e).result = .ok () := Evaluation.result_of_ready hv _
    have hstage : (s.turnAfter es e).session.stage = .finished v := Evaluation.stage_of_ready hv
    exact ⟨_, settle_of_finished hresult hstage left, fun made r =>
      byHand_of_finished hresult hstage⟩
  | suspended =>
    by_cases hp : e.pending = []
    · have hresult : (s.turnAfter es e).result = .error (.stalled (es.length + 1)) :=
        Evaluation.result_of_stalled hv hp _
      exact ⟨_, settle_of_error hresult left, fun made r => byHand_of_error hresult⟩
    cases hr : resolve es.length e.pending e.host with
    | mk resolved next =>
      cases resolved with
      | ok u => simp [afterRound_of_resolved hv hp hr] at h
      | error reason =>
        rw [← turnAfter_rounds_length s es e] at hr
        have hresult : (s.turnAfter es e).result = .ok () := turnAfter_result hp
        have hstage : (s.turnAfter es e).session.stage = .waiting e.pending :=
          turnAfter_stage hv hp
        exact ⟨_, settle_of_failed_round hresult hstage hr left, fun made r =>
          byHand_of_unresolved hresult hstage hr⟩

section

variable {next : σ} {made : List (Numbered O σ)} {r : Turn O σ Value} (hv : e.value = .suspended)
  (hp : e.pending ≠ [])
include hv hp

theorem resumedByHand_of_spent (hlimit : s.maxPasses ≤ es.length + 1) :
    ResumedByHand resolve origin context ((s.turnAfter es e).handedOut e.pending next) made r ↔
      made = [] ∧ r = ⟨.error (.passLimit (es.length + 1)),
        s.after (es.length + 1) (.waiting e.pending), next, (es ++ [e]).flatMap (·.journal),
        (es ++ [e]).map (·.pending)⟩ := by
  have hresume : (s.turnAfter es e).session.resume origin context next =
      some ((s.turnAfter es e).session.refuse next (.passLimit (es.length + 1))) :=
    resume_turnAfter_of_spent hv hp hlimit
  have hmade : (Command.resume origin context).passes (s.turnAfter es e).session next = [] :=
    if_neg fun hgo => absurd hgo.2 (Nat.not_lt.mpr hlimit)
  rw [← conclude_refused hv hp]
  constructor
  · rintro ⟨refused, made', hrefused, hby, rfl⟩
    obtain rfl := Option.some.inj (hresume.symm.trans hrefused)
    obtain ⟨rfl, rfl⟩ := (byHand_of_error rfl).mp hby
    exact ⟨by rw [List.append_nil]; exact hmade, rfl⟩
  · rintro ⟨rfl, rfl⟩
    exact ⟨_, [], hresume, .failed rfl, by rw [List.append_nil]; exact hmade.symm⟩

theorem resumedByHand_of_allowed (hlimit : es.length + 1 < s.maxPasses) :
    ResumedByHand resolve origin context ((s.turnAfter es e).handedOut e.pending next) made r ↔
      ∃ e' made', s.formula.evaluate origin context next = some e' ∧
        ByHand resolve origin context (s.turnAfter (es ++ [e]) e') made' r ∧
        made = (es.length + 2, e') :: made' := by
  have hresume : ((s.turnAfter es e).session.resume origin context next).map
      ((s.turnAfter es e).handedOut e.pending next).followedBy =
        (s.formula.evaluate origin context next).map (s.turnAfter (es ++ [e])) :=
    resume_turnAfter_of_allowed hv hp hlimit
  have hmade : (Command.resume origin context).passes (s.turnAfter es e).session next =
      (s.formula.evaluate origin context next).toList.map (es.length + 2, ·) :=
    if_pos ⟨turnAfter_isWaiting hv hp, hlimit⟩
  constructor
  · rintro ⟨resumed, made', hresumed, hby, rfl⟩
    have hresumed : (s.turnAfter es e).session.resume origin context next = some resumed := hresumed
    rw [hresumed, Option.map_some] at hresume
    obtain ⟨e', he', hturn⟩ := Option.map_eq_some_iff.mp hresume.symm
    refine ⟨e', made', he', hturn ▸ hby, ?_⟩
    change (Command.resume origin context).passes (s.turnAfter es e).session next ++ made' = _
    rw [hmade, he']
    rfl
  · rintro ⟨e', made', he', hby, rfl⟩
    rw [he', Option.map_some] at hresume
    obtain ⟨resumed, hresumed, hturn⟩ := Option.map_eq_some_iff.mp hresume
    refine ⟨resumed, made', hresumed, hturn ▸ hby, ?_⟩
    change _ = (Command.resume origin context).passes (s.turnAfter es e).session next ++ made'
    rw [hmade, he']
    rfl

end

theorem byHand_iff_settle_of_last {before : σ} {left : Nat} {made : List (Numbered O σ)}
    {r : Turn O σ Value}
    (hmade : passesFrom s.formula origin context resolve left (es.length + 1) before =
      [(es.length + 1, e)])
    (h : ∃ t, settle resolve origin context left (s.turnAfter es e) = some t ∧
      ∀ made r, ByHand resolve origin context (s.turnAfter es e) made r ↔ made = [] ∧ r = t) :
    ByHand resolve origin context (s.turnAfter es e) made r ↔
      settle resolve origin context left (s.turnAfter es e) = some r ∧
      passesFrom s.formula origin context resolve left (es.length + 1) before =
        (es.length + 1, e) :: made := by
  obtain ⟨t, hsettle, hby⟩ := h
  rw [hby, hsettle, hmade]
  constructor
  · rintro ⟨rfl, rfl⟩
    exact ⟨rfl, rfl⟩
  · rintro ⟨ht, hnil⟩
    exact ⟨(List.tail_eq_of_cons_eq hnil).symm, (Option.some.inj ht).symm⟩

theorem passesFrom_head (resolve : Resolver σ) {formula : Formula O σ} {before : σ}
    (he : formula.evaluate origin context before = some e) (left n : Nat) :
    ∃ made, passesFrom formula origin context resolve left n before = (n, e) :: made := by
  unfold passesFrom
  rw [he]
  exact ⟨_, rfl⟩

theorem byHand_turnAfter_of_resolved {next : σ} {made : List (Numbered O σ)} {r : Turn O σ Value}
    (hv : e.value = .suspended) (hp : e.pending ≠ [])
    (hr : resolve es.length e.pending e.host = (.ok (), next)) :
    ByHand resolve origin context (s.turnAfter es e) made r ↔
      ResumedByHand resolve origin context ((s.turnAfter es e).handedOut e.pending next) made
        r := by
  rw [← turnAfter_rounds_length s es e] at hr
  exact byHand_of_resolved (turnAfter_result hp) (turnAfter_stage hv hp) hr

/-- Going on by hand from a pass comes to the same as going on with a run, and makes the same
passes. -/
theorem byHand_iff_settle {before : σ} {left : Nat}
    (he : s.formula.evaluate origin context before = some e)
    (hleft : es.length + 1 + left = max 1 s.maxPasses) {made : List (Numbered O σ)}
    {r : Turn O σ Value} :
    ByHand resolve origin context (s.turnAfter es e) made r ↔
      settle resolve origin context left (s.turnAfter es e) = some r ∧
      passesFrom s.formula origin context resolve left (es.length + 1) before =
        (es.length + 1, e) :: made := by
  induction left generalizing es before e made with
  | zero =>
    have hmade : passesFrom s.formula origin context resolve 0 (es.length + 1) before =
        [(es.length + 1, e)] := passesFrom_last he (.inl rfl)
    cases hround : afterRound resolve (es.length + 1) e with
    | none => exact byHand_iff_settle_of_last hmade (byHand_of_no_round hround 0)
    | some next =>
      obtain ⟨hv, hp, hr⟩ := resolved_of_afterRound hround
      have hlimit : s.maxPasses ≤ es.length + 1 := by omega
      refine byHand_iff_settle_of_last hmade ⟨_, settle_of_limit hv hp hr hlimit, fun made r => ?_⟩
      rw [byHand_turnAfter_of_resolved hv hp hr, resumedByHand_of_spent hv hp hlimit]
  | succ left ih =>
    cases hround : afterRound resolve (es.length + 1) e with
    | none =>
      exact byHand_iff_settle_of_last (passesFrom_last he (.inr hround))
        (byHand_of_no_round hround (left + 1))
    | some next =>
      obtain ⟨hv, hp, hr⟩ := resolved_of_afterRound hround
      have hlength : (es ++ [e]).length = es.length + 1 := by simp
      rw [byHand_turnAfter_of_resolved hv hp hr, resumedByHand_of_allowed hv hp (by omega),
        settle_of_resolved hv hp hr (by omega), passesFrom_next left he hround]
      constructor
      · rintro ⟨e', made', he', hby, rfl⟩
        obtain ⟨hsettle, hmade⟩ := (ih he' (by omega)).mp hby
        rw [hlength] at hmade
        exact ⟨by rw [he']; exact hsettle, by rw [hmade]⟩
      · rintro ⟨hsettle, hmade⟩
        obtain ⟨e', he', hsettle⟩ := Option.bind_eq_some_iff.mp hsettle
        obtain rfl := List.tail_eq_of_cons_eq hmade
        obtain ⟨made', hmade'⟩ := passesFrom_head resolve he' left (es.length + 2)
        have hby := (ih he' (by omega)).mpr ⟨hsettle, by rw [hlength]; exact hmade'⟩
        exact ⟨e', made', he', hby, hmade'⟩

theorem Course.congr {formula : Formula O σ} {resolve' : Resolver σ} {before : σ}
    (hes : Course formula origin context resolve host es before)
    (h : ∀ n < es.length, resolve n = resolve' n) :
    Course formula origin context resolve' host es before := by
  induction hes with
  | start => exact .start
  | @next es before after e hes he hv hp hr ih =>
    rw [List.length_append, List.length_singleton] at h
    have hround := h es.length (by omega)
    rw [hround] at hr
    exact (ih fun n hn => h n (by omega)).next he hv hp hr

/-- After a course a run has come as far as the passes of that course. -/
theorem run_of_course {before : σ} {left : Nat}
    (hes : Course s.formula origin context resolve host es before)
    (hleft : left + es.length = s.maxPasses - 1) :
    s.run origin context resolve host = (s.formula.evaluate origin context before).bind fun e =>
      settle resolve origin context left (s.turnAfter es e) := by
  induction hes generalizing left with
  | start =>
    obtain rfl : left = s.maxPasses - 1 := by simpa using hleft
    exact run_eq s origin context resolve host
  | @next es before after e hes he hv hp hr ih =>
    rw [List.length_append, List.length_singleton] at hleft
    have hbefore : s.run origin context resolve host =
        (s.formula.evaluate origin context before).bind fun e =>
          settle resolve origin context (left + 1) (s.turnAfter es e) := ih (by omega)
    rw [hbefore, he, Option.bind_some, settle_of_resolved hv hp hr (by omega)]

theorem startedByHand_iff_run {made : List (Numbered O σ)} {r : Turn O σ Value} :
    StartedByHand resolve origin context s host made r ↔
      s.run origin context resolve host = some r ∧
      made = (Command.run origin context resolve).passes s host := by
  have hfirst (e : Evaluation O σ) (he : s.formula.evaluate origin context host = some e)
      (made : List (Numbered O σ)) :
      ByHand resolve origin context (s.turnAfter [] e) made r ↔
        settle resolve origin context (s.maxPasses - 1) (s.turnAfter [] e) = some r ∧
        passesFrom s.formula origin context resolve (s.maxPasses - 1) 1 host = (1, e) :: made :=
    byHand_iff_settle he (by rw [List.length_nil]; omega)
  unfold StartedByHand
  rw [start_eq, run_eq]
  constructor
  · rintro ⟨_, made', hstart, hby, rfl⟩
    obtain ⟨e, he, rfl⟩ := Option.map_eq_some_iff.mp hstart
    obtain ⟨hsettle, hmade⟩ := (hfirst e he made').mp hby
    refine ⟨by rw [he]; exact hsettle, ?_⟩
    simp only [Command.passes, he, Option.toList_some, List.map_singleton]
    exact hmade.symm
  · rintro ⟨hrun, rfl⟩
    obtain ⟨e, he, hsettle⟩ := Option.bind_eq_some_iff.mp hrun
    obtain ⟨made', hmade⟩ := passesFrom_head resolve he (s.maxPasses - 1) 1
    refine ⟨s.turnAfter [] e, made', by rw [he]; rfl, (hfirst e he made').mpr ⟨hsettle, hmade⟩, ?_⟩
    simp only [Command.passes, he, Option.toList_some, List.map_singleton]
    exact hmade

section

variable {before last : σ} {reason : String} {left : Nat}
  (hes : Course s.formula origin context resolve host es before)
  (he : s.formula.evaluate origin context before = some e)
  (hv : e.value = .suspended) (hp : e.pending ≠ [])
  (hr : resolve es.length e.pending e.host = (.error reason, last))
  (hleft : es.length + 1 + left = max 1 s.maxPasses)
include hes he hv hp hr hleft

theorem run_of_failed_round :
    s.run origin context resolve host = some
        (conclude ((s.turnAfter es e).handedOut e.pending last) (.error (.unresolved reason))) ∧
      (Command.run origin context resolve).passes s host = counted (es ++ [e]) := by
  have hcourse : left + es.length = s.maxPasses - 1 := by omega
  obtain ⟨-, hend⟩ := (Conclusion.unresolved hv hp hr).last_pass hleft
  constructor
  · rw [run_of_course hes hcourse, he, Option.bind_some, settle_of_unresolved hv hp hr,
      turnAfter_handedOut hv hp]
    rfl
  · rw [Command.passes, ← hcourse, passesFrom_of_course hes, passesFrom_last he hend,
      counted_append]

theorem resumedByHand_iff_run {made : List (Numbered O σ)} {r : Turn O σ Value} :
    ResumedByHand resolve origin context ((s.turnAfter es e).handedOut e.pending last) made r ↔
      s.run origin context (resolve.relenting es.length) host = some r ∧
      (Command.run origin context (resolve.relenting es.length)).passes s host =
        counted (es ++ [e]) ++ made := by
  let relenting := resolve.relenting es.length
  have hcourse : left + es.length = s.maxPasses - 1 := by omega
  have hes' : Course s.formula origin context relenting host es before :=
    hes.congr fun n hn => (resolve.relenting_of_ne (Nat.ne_of_lt hn)).symm
  have hr' : relenting es.length e.pending e.host = (.ok (), last) := by
    have hround := resolve.relenting_self es.length e.pending e.host
    rwa [hr] at hround
  have hlater : ∀ n, ((s.turnAfter es e).handedOut e.pending last).rounds.length ≤ n →
      resolve n = relenting n := by
    intro n hn
    rw [turnAfter_handedOut hv hp, List.length_map, List.length_append, List.length_singleton] at hn
    exact (resolve.relenting_of_ne (by omega)).symm
  have hpasses : (Command.run origin context relenting).passes s host = counted es ++
      passesFrom s.formula origin context relenting left (es.length + 1) before := by
    rw [Command.passes, ← hcourse, passesFrom_of_course hes']
  rw [resumedByHand_congr hlater, ← byHand_turnAfter_of_resolved hv hp hr',
    byHand_iff_settle he hleft, run_of_course hes' hcourse, he, Option.bind_some, hpasses,
    counted_append, List.append_assoc, List.append_cancel_left_eq, List.singleton_append]

end

/-- A run comes to the same as starting a session and going on by hand, pass by pass. If its
resolver fails, the run ends there: the session still waits for the very requests that were handed
out in vain, and counts the passes that were made. To resume it then and go on by hand makes the
passes, and comes to the end, of the run in which that round does the same to the host without a
failure; the limit of passes is no exception. -/
theorem run_resumable_by_hand (s : Session O σ) (origin : O) (context : Object)
    (resolve : Resolver σ) (host : σ) :
    (∀ made r, StartedByHand resolve origin context s host made r ↔
      s.run origin context resolve host = some r ∧
      made = (Command.run origin context resolve).passes s host) ∧
    ∀ es before e pending reason last, Course s.formula origin context resolve host es before →
      es.length < max 1 s.maxPasses → s.formula.evaluate origin context before = some e →
      e.stage = .waiting pending → resolve es.length pending e.host = (.error reason, last) →
      ∃ t, s.run origin context resolve host = some t ∧
        t.result = .error (.unresolved reason) ∧
        t.session = s.after (es.length + 1) (.waiting pending) ∧ t.host = last ∧
        t.rounds.length = es.length + 1 ∧ t.rounds.getLast? = some pending ∧
        (Command.run origin context resolve).passes s host = counted (es ++ [e]) ∧
        ∀ made r, ResumedByHand resolve origin context t made r ↔
          s.run origin context (resolve.relenting es.length) host = some r ∧
          (Command.run origin context (resolve.relenting es.length)).passes s host =
            counted (es ++ [e]) ++ made := by
  refine ⟨fun made r => startedByHand_iff_run, ?_⟩
  intro es before e pending reason last hes hbound he hstage hr
  obtain ⟨hv, rfl, hp⟩ := Evaluation.pending_of_stage hstage
  obtain ⟨left, hleft⟩ : ∃ left, es.length + 1 + left = max 1 s.maxPasses :=
    ⟨max 1 s.maxPasses - (es.length + 1), by omega⟩
  obtain ⟨hrun, hpasses⟩ := run_of_failed_round hes he hv hp hr hleft
  have hturn : (s.turnAfter es e).handedOut e.pending last = _ := turnAfter_handedOut hv hp last
  refine ⟨_, hrun, rfl, ?_, rfl, ?_, ?_, hpasses, fun made r =>
    resumedByHand_iff_run hes he hv hp hr hleft⟩
  · rw [conclude, hturn]
  · rw [conclude, hturn, List.length_map, List.length_append, List.length_singleton]
  · rw [conclude, hturn, List.map_append, List.getLast?_append]
    rfl

theorem run_resumable_by_hand_of_last_round :
    let formula : Formula String Nat := fun _ _ => do
      let n ← Pass.onHost fun n => (n, n)
      Pass.await (.pending ⟨.number n, 0⟩)
    let sheet : Object := .host ⟨"sheet", 0⟩
    let flaky : Resolver Nat := fun k _ n => (if k = 1 then .error "offline" else .ok (), n + 1)
    ∃ t r, (new formula 2).run "" sheet flaky 0 = some t ∧
      t.result = .error (.unresolved "offline") ∧ t.session.stage = .waiting [⟨.number 1, 0⟩] ∧
      t.session.passes = 2 ∧ t.host = 2 ∧
      (new formula 2).run "" sheet (flaky.relenting 1) 0 = some r ∧
      ResumedByHand flaky "" sheet t [] r ∧ r.result = .error (.passLimit 2) := by
  intro formula sheet flaky
  let asked (n : Nat) : Evaluation String Nat := ⟨.suspended, [⟨.number n, 0⟩], [], n⟩
  have hes : Course formula "" sheet flaky 0 [asked 0] 1 :=
    .next .start rfl rfl (by simp [asked]) rfl
  obtain ⟨-, hfailed⟩ := run_resumable_by_hand (new formula 2) "" sheet flaky 0
  obtain ⟨t, ht, hresult, hsession, hhost, -, -, -, hresumed⟩ :=
    hfailed [asked 0] 1 (asked 1) [⟨.number 1, 0⟩] "offline" 2 hes (by decide) rfl rfl rfl
  have hrelenting : ∃ r, (new formula 2).run "" sheet (flaky.relenting 1) 0 = some r ∧
      r.result = .error (.passLimit 2) := ⟨_, rfl, rfl⟩
  obtain ⟨r, hr, hlimit⟩ := hrelenting
  exact ⟨t, r, ht, hresult, by rw [hsession]; rfl, by rw [hsession]; rfl, hhost, hr,
    (hresumed [] r).mpr ⟨hr, rfl⟩, hlimit⟩

end

end Session

end ResumableFormulas
