import ResumableFormulas.Proofs.Session.Course

/-! # The history of a session

A session is started, resumed and run again and again, and between two commands its host may change
in any way. Beside the session goes the list of the passes that were really made, each with its
number since the evaluation was started. A command that is not refused makes a last pass, and where
the session stands afterwards is where that pass leaves it; all that can be said of a session in the
midst of its history follows from this.
-/
namespace ResumableFormulas

namespace Evaluation

variable {O σ : Type} {e : Evaluation O σ}

theorem pending_of_stage {pending : List Request} (h : e.stage = .waiting pending) :
    e.value = .suspended ∧ pending = e.pending ∧ pending ≠ [] := by
  unfold stage at h
  split at h
  case h_1 => contradiction
  case h_2 => contradiction
  case h_3 hv hp =>
    obtain rfl := Stage.waiting.inj h
    exact ⟨hv, rfl, hp⟩

theorem stalled_of_stage (h : e.stage = .idle) : e.value = .suspended ∧ e.pending = [] := by
  unfold stage at h
  split at h
  case h_1 => contradiction
  case h_2 hv hp => exact ⟨hv, hp⟩
  case h_3 => contradiction

theorem result_ne_refusal (e : Evaluation O σ) (n : Nat) :
    e.result n ≠ .error .notWaiting ∧ ∀ k, e.result n ≠ .error (.passLimit k) := by
  unfold result
  split <;> simp

end Evaluation

namespace Session

variable {O σ : Type}

inductive Command (O σ : Type) where
  | start (origin : O) (context : Object)
  | resume (origin : O) (context : Object)
  | run (origin : O) (context : Object) (resolve : Resolver σ)

/-- A pass that was made: its number since the evaluation was started, and what it came to. -/
abbrev Numbered (O σ : Type) : Type := Nat × Evaluation O σ

/-- A pass that a formula can make, with a number in the given bounds. -/
structure IsPass (formula : Formula O σ) (first last : Nat) (p : Numbered O σ) : Prop where
  bounds : first ≤ p.1 ∧ p.1 ≤ last
  evaluated : ∃ origin context before, formula.evaluate origin context before = some p.2

/-- Passes in a row, counted from the first one on. -/
def counted (es : List (Evaluation O σ)) : List (Numbered O σ) := es.mapIdx fun i e => (i + 1, e)

theorem counted_append (es : List (Evaluation O σ)) (e : Evaluation O σ) :
    counted (es ++ [e]) = counted es ++ [(es.length + 1, e)] :=
  List.mapIdx_concat

section

variable (formula : Formula O σ) (origin : O) (context : Object) (resolve : Resolver σ)

/-- The state in which the next pass finds the host, if the requests of the `n`-th one are resolved.
-/
def afterRound (n : Nat) (e : Evaluation O σ) : Option σ :=
  match e.stage with
  | .waiting pending =>
    match resolve (n - 1) pending e.host with
    | (.ok _, next) => some next
    | (.error _, _) => none
  | .idle | .finished _ => none

/-- The passes of a run from its `n`-th one on, with `left` more of them allowed after that. -/
def passesFrom (left n : Nat) (host : σ) : List (Numbered O σ) :=
  match formula.evaluate origin context host with
  | none => []
  | some e => (n, e) ::
    match left with
    | 0 => []
    | left + 1 =>
      match afterRound resolve n e with
      | none => []
      | some next => passesFrom left (n + 1) next

end

namespace Command

def isResume : Command O σ → Bool
  | resume _ _ => true
  | start _ _ | run _ _ _ => false

/-- The session that a command leaves behind, whether it succeeds or fails. -/
def perform (c : Command O σ) (s : Session O σ) (host : σ) : Option (Session O σ) :=
  match c with
  | start origin context => (s.start origin context host).map (·.session)
  | resume origin context => (s.resume origin context host).map (·.session)
  | run origin context resolve => (s.run origin context resolve host).map (·.session)

/-- The passes that a command makes. -/
def passes (c : Command O σ) (s : Session O σ) (host : σ) : List (Numbered O σ) :=
  match c with
  | start origin context => (s.formula.evaluate origin context host).toList.map (1, ·)
  | resume origin context =>
    if s.stage.isWaiting ∧ s.passes < s.maxPasses then
      (s.formula.evaluate origin context host).toList.map (s.passes + 1, ·)
    else []
  | run origin context resolve =>
    passesFrom s.formula origin context resolve (s.maxPasses - 1) 1 host

end Command

/-- Commands given one after another, each with the state in which it finds the host; the passes
that they make; and the session to which they lead. -/
inductive History (s₀ : Session O σ) :
    List (Command O σ × σ) → List (Numbered O σ) → Session O σ → Prop where
  | new : History s₀ [] [] s₀
  | command {commands : List (Command O σ × σ)} {made : List (Numbered O σ)} {s s' : Session O σ}
      (h : History s₀ commands made s) (c : Command O σ) (host : σ)
      (hc : c.perform s host = some s') :
      History s₀ (commands ++ [(c, host)]) (made ++ c.passes s host) s'

section

variable {formula : Formula O σ} {origin : O} {context : Object} {resolve : Resolver σ} {host : σ}

theorem afterRound_of_resolved {n : Nat} {e : Evaluation O σ} {next : σ} (hv : e.value = .suspended)
    (hp : e.pending ≠ []) (hr : resolve n e.pending e.host = (.ok (), next)) :
    afterRound resolve (n + 1) e = some next := by
  simp only [afterRound, Evaluation.stage_of_waiting hv hp, Nat.add_sub_cancel, hr]

theorem passesFrom_last {left n : Nat} {before : σ} {e : Evaluation O σ}
    (he : formula.evaluate origin context before = some e)
    (hend : left = 0 ∨ afterRound resolve n e = none) :
    passesFrom formula origin context resolve left n before = [(n, e)] := by
  cases left with
  | zero => simp only [passesFrom, he]
  | succ left =>
    have hnone : afterRound resolve n e = none := by simpa using hend
    simp only [passesFrom, he, hnone]

theorem passesFrom_next (left : Nat) {n : Nat} {before next : σ} {e : Evaluation O σ}
    (he : formula.evaluate origin context before = some e)
    (hr : afterRound resolve n e = some next) :
    passesFrom formula origin context resolve (left + 1) n before =
      (n, e) :: passesFrom formula origin context resolve left (n + 1) next := by
  rw [passesFrom]
  simp only [he, hr]

theorem isPass_of_mem_passesFrom {left n : Nat} {p : Numbered O σ}
    (hp : p ∈ passesFrom formula origin context resolve left n host) :
    IsPass formula n (n + left) p := by
  induction left generalizing n host with
  | zero =>
    cases he : formula.evaluate origin context host with
    | none => simp [passesFrom, he] at hp
    | some e =>
      rw [passesFrom_last he (.inl rfl)] at hp
      obtain rfl := List.mem_singleton.mp hp
      exact ⟨⟨Nat.le_refl n, Nat.le_refl n⟩, origin, context, host, he⟩
  | succ left ih =>
    cases he : formula.evaluate origin context host with
    | none => simp [passesFrom, he] at hp
    | some e =>
      have hfirst : IsPass formula n (n + (left + 1)) (n, e) :=
        ⟨⟨Nat.le_refl n, Nat.le_add_right n _⟩, origin, context, host, he⟩
      cases hr : afterRound resolve n e with
      | none =>
        rw [passesFrom_last he (.inr hr)] at hp
        obtain rfl := List.mem_singleton.mp hp
        exact hfirst
      | some next =>
        rw [passesFrom_next left he hr] at hp
        rcases List.mem_cons.mp hp with rfl | hp
        · exact hfirst
        · obtain ⟨⟨hlow, hhigh⟩, hevaluated⟩ := ih hp
          exact ⟨⟨by omega, by omega⟩, hevaluated⟩

/-- The passes of a run begin with those of its course. -/
theorem passesFrom_of_course {es : List (Evaluation O σ)} {before : σ}
    (hes : Course formula origin context resolve host es before) (left : Nat) :
    passesFrom formula origin context resolve (left + es.length) 1 host =
      counted es ++ passesFrom formula origin context resolve left (es.length + 1) before := by
  induction hes generalizing left with
  | start => rfl
  | @next es before after e hes he hv hp hr ih =>
    have hnext := passesFrom_next left he (afterRound_of_resolved hv hp hr)
    have hlength : left + (es ++ [e]).length = left + 1 + es.length := by
      rw [List.length_append, List.length_singleton]
      omega
    rw [hlength, ih (left + 1), hnext, counted_append, List.length_append, List.length_singleton,
      List.append_assoc, List.singleton_append]

/-- After the pass with which a run concludes there is none. -/
theorem Conclusion.last_pass {s : Session O σ} {es : List (Evaluation O σ)} {e : Evaluation O σ}
    {t : Turn O σ Value} (h : Conclusion s resolve es e t) {left : Nat}
    (hleft : es.length + 1 + left = max 1 s.maxPasses) :
    t.session = s.after (es.length + 1) e.stage ∧
      (left = 0 ∨ afterRound resolve (es.length + 1) e = none) := by
  cases h with
  | value hv =>
    have hstage := Evaluation.stage_of_ready hv
    exact ⟨by rw [hstage], .inr (by simp only [afterRound, hstage])⟩
  | stalled hv hp =>
    have hstage := Evaluation.stage_of_stalled hv hp
    exact ⟨by rw [hstage], .inr (by simp only [afterRound, hstage])⟩
  | unresolved hv hp hr =>
    have hstage := Evaluation.stage_of_waiting hv hp
    exact ⟨by rw [hstage], .inr (by simp only [afterRound, hstage, Nat.add_sub_cancel, hr])⟩
  | limit hv hp hr hn =>
    have hstage := Evaluation.stage_of_waiting hv hp
    exact ⟨by rw [hstage], .inl (by omega)⟩

/-- A run makes passes up to the one that decides where its session stands in the end. -/
theorem run_passes {s : Session O σ} {t : Turn O σ Value}
    (h : s.run origin context resolve host = some t) :
    ∃ n e, t.session = s.after (n + 1) e.stage ∧ n + 1 ≤ max 1 s.maxPasses ∧
      (passesFrom s.formula origin context resolve (s.maxPasses - 1) 1 host).getLast? =
        some (n + 1, e) := by
  obtain ⟨es, before, e, hes, he, hbound, hc⟩ := run_concludes h
  obtain ⟨left, hleft⟩ : ∃ left, s.maxPasses - 1 = left + es.length :=
    ⟨s.maxPasses - 1 - es.length, by omega⟩
  have hallowed : es.length + 1 + left = max 1 s.maxPasses := by omega
  obtain ⟨hsession, hend⟩ := hc.last_pass hallowed
  refine ⟨es.length, e, hsession, hbound, ?_⟩
  rw [hleft, passesFrom_of_course hes, passesFrom_last he hend, List.getLast?_append,
    List.getLast?_singleton, Option.some_or]

theorem pass_session {s : Session O σ} {t : Turn O σ Unit}
    (h : s.pass origin context host = some t) :
    ∃ e, s.formula.evaluate origin context host = some e ∧
      t.session = s.after (s.passes + 1) e.stage := by
  rw [pass_eq, Option.map_eq_some_iff] at h
  obtain ⟨e, he, rfl⟩ := h
  exact ⟨e, he, rfl⟩

end

section

variable {s : Session O σ} {origin : O} {context : Object} {host : σ}

/-- A command is a refused resumption, or it makes passes, and its last one decides where the
session stands. -/
theorem Command.perform_cases {c : Command O σ} {s' : Session O σ}
    (h : c.perform s host = some s') :
    (c.isResume = true ∧ c.passes s host = [] ∧ s' = s) ∨
    ∃ n e, s' = s.after (n + 1) e.stage ∧ n + 1 ≤ max 1 s.maxPasses ∧
      (c.isResume = true → s.stage.isWaiting = true) ∧
      (c.passes s host).getLast? = some (n + 1, e) := by
  cases c with
  | start origin context =>
    obtain ⟨t, ht, rfl⟩ := Option.map_eq_some_iff.mp h
    obtain ⟨e, he, hsession⟩ := pass_session ht
    refine .inr ⟨0, e, hsession, by omega, by simp [isResume], ?_⟩
    have hformula : s.formula.evaluate origin context host = some e := he
    simp [passes, hformula]
  | resume origin context =>
    obtain ⟨t, ht, rfl⟩ := Option.map_eq_some_iff.mp h
    obtain ⟨hwaiting, hr⟩ | ⟨hwaiting, hlimit, hr⟩ | ⟨hwaiting, hlimit, hr⟩ :=
      resume_cases s origin context host
    · obtain rfl := Option.some.inj (hr.symm.trans ht)
      exact .inl ⟨rfl, by simp [passes, hwaiting], rfl⟩
    · obtain rfl := Option.some.inj (hr.symm.trans ht)
      exact .inl ⟨rfl, by simp [passes, Nat.not_lt.mpr hlimit], rfl⟩
    · obtain ⟨e, he, hsession⟩ := pass_session (hr.symm.trans ht)
      refine .inr ⟨s.passes, e, hsession, by omega, fun _ => hwaiting, ?_⟩
      simp [passes, hwaiting, hlimit, he]
  | run origin context resolve =>
    obtain ⟨t, ht, rfl⟩ := Option.map_eq_some_iff.mp h
    obtain ⟨n, e, hsession, hbound, hlast⟩ := run_passes ht
    exact .inr ⟨n, e, hsession, hbound, by simp [isResume], hlast⟩

theorem Command.isPass {c : Command O σ} {p : Numbered O σ} (hp : p ∈ c.passes s host) :
    IsPass s.formula 1 (max 1 s.maxPasses) p := by
  cases c with
  | start origin context =>
    obtain ⟨e, he, rfl⟩ := List.mem_map.mp hp
    exact ⟨⟨by simp, by omega⟩, origin, context, host, Option.mem_toList.mp he⟩
  | resume origin context =>
    by_cases hgo : s.stage.isWaiting = true ∧ s.passes < s.maxPasses
    · simp only [passes, if_pos hgo] at hp
      obtain ⟨e, he, rfl⟩ := List.mem_map.mp hp
      exact ⟨⟨by simp, by omega⟩, origin, context, host, Option.mem_toList.mp he⟩
    · simp only [passes, if_neg hgo, List.not_mem_nil] at hp
  | run origin context resolve =>
    obtain ⟨⟨hlow, hhigh⟩, hevaluated⟩ := isPass_of_mem_passesFrom hp
    exact ⟨⟨hlow, by omega⟩, hevaluated⟩

theorem pass_ne_refusal {t : Turn O σ Unit} (h : s.pass origin context host = some t) :
    t.result ≠ .error .notWaiting ∧ ∀ n, t.result ≠ .error (.passLimit n) := by
  rw [pass_eq, Option.map_eq_some_iff] at h
  obtain ⟨e, -, rfl⟩ := h
  exact e.result_ne_refusal _

theorem resume_notWaiting_iff :
    (∃ t, s.resume origin context host = some t ∧ t.result = .error .notWaiting) ↔
      s.stage.isWaiting = false := by
  constructor
  · rintro ⟨t, ht, hresult⟩
    obtain ⟨hwaiting, -⟩ | ⟨-, -, hr⟩ | ⟨-, -, hr⟩ := resume_cases s origin context host
    · exact hwaiting
    · obtain rfl := Option.some.inj (hr.symm.trans ht)
      simp [refuse] at hresult
    · exact absurd hresult (pass_ne_refusal (hr.symm.trans ht)).1
  · intro hwaiting
    exact ⟨_, resume_of_not_waiting hwaiting, rfl⟩

theorem resume_passLimit_iff {n : Nat} :
    (∃ t, s.resume origin context host = some t ∧ t.result = .error (.passLimit n)) ↔
      s.stage.isWaiting = true ∧ s.maxPasses ≤ s.passes ∧ n = s.passes := by
  constructor
  · rintro ⟨t, ht, hresult⟩
    obtain ⟨-, hr⟩ | ⟨hwaiting, hlimit, hr⟩ | ⟨-, -, hr⟩ := resume_cases s origin context host
    · obtain rfl := Option.some.inj (hr.symm.trans ht)
      simp [refuse] at hresult
    · obtain rfl := Option.some.inj (hr.symm.trans ht)
      have hn : s.passes = n := by simpa [refuse] using hresult
      exact ⟨hwaiting, hlimit, hn.symm⟩
    · exact absurd hresult ((pass_ne_refusal (hr.symm.trans ht)).2 n)
  · rintro ⟨hwaiting, hlimit, rfl⟩
    exact ⟨_, resume_of_spent hwaiting hlimit, rfl⟩

/-- A refused resumption leaves the session and its host as they are, whatever its formula would
have done. -/
theorem resume_refused {t : Turn O σ Unit} {e : SessionError}
    (ht : s.resume origin context host = some t) (he : t.result = .error e)
    (hrefusal : e = .notWaiting ∨ ∃ n, e = .passLimit n) :
    t = s.refuse host e ∧ ∀ other : Formula O σ,
      { s with formula := other }.resume origin context host =
        some ({ s with formula := other }.refuse host e) := by
  rcases hrefusal with rfl | ⟨n, rfl⟩
  · have hwaiting := resume_notWaiting_iff.mp ⟨t, ht, he⟩
    have hr : s.resume origin context host = some (s.refuse host .notWaiting) :=
      resume_of_not_waiting hwaiting
    obtain rfl := Option.some.inj (hr.symm.trans ht)
    exact ⟨rfl, fun other => resume_of_not_waiting hwaiting⟩
  · obtain ⟨hwaiting, hlimit, rfl⟩ := resume_passLimit_iff.mp ⟨t, ht, he⟩
    have hr : s.resume origin context host = some (s.refuse host (.passLimit s.passes)) :=
      resume_of_spent hwaiting hlimit
    obtain rfl := Option.some.inj (hr.symm.trans ht)
    exact ⟨rfl, fun other => resume_of_spent hwaiting hlimit⟩

end

section

variable {formula : Formula O σ} {maxPasses : Nat} {commands : List (Command O σ × σ)}
  {made : List (Numbered O σ)} {s : Session O σ}

/-- A session is new as long as nothing was done but to resume it in vain. From then on it stands
where its last pass has left it. -/
theorem History.standing (h : History (.new formula maxPasses) commands made s) :
    (made = [] ∧ s = .new formula maxPasses ∧ ∀ c ∈ commands, c.1.isResume = true) ∨
    ∃ n e, made.getLast? = some (n + 1, e) ∧
      s = (Session.new formula maxPasses).after (n + 1) e.stage ∧ n + 1 ≤ max 1 maxPasses ∧
      ∃ c ∈ commands, c.1.isResume = false := by
  induction h with
  | new => exact .inl ⟨rfl, rfl, by simp⟩
  | @command commands made s s' h c host hc ih =>
    have hmax : s.maxPasses = maxPasses := by
      rcases ih with ⟨-, rfl, -⟩ | ⟨n, e, -, rfl, -⟩ <;> rfl
    have hformula : s.formula = formula := by
      rcases ih with ⟨-, rfl, -⟩ | ⟨n, e, -, rfl, -⟩ <;> rfl
    obtain ⟨hresume, hpasses, rfl⟩ | ⟨n, e, rfl, hbound, hwaiting, hlast⟩ :=
      Command.perform_cases hc
    · rw [hpasses, List.append_nil]
      rcases ih with ⟨hmade, hs, hall⟩ | ⟨n, e, hlast, hs, hbound, d, hd, hstarts⟩
      · refine .inl ⟨hmade, hs, ?_⟩
        intro d hd
        rcases List.mem_append.mp hd with hd | hd
        · exact hall d hd
        · obtain rfl := List.mem_singleton.mp hd
          exact hresume
      · exact .inr ⟨n, e, hlast, hs, hbound, d, List.mem_append_left _ hd, hstarts⟩
    · refine .inr ⟨n, e, ?_, ?_, hmax ▸ hbound, ?_⟩
      · rw [List.getLast?_append, hlast, Option.some_or]
      · simp only [after, Session.new, hformula, hmax]
      · cases hresume : c.isResume with
        | false => exact ⟨(c, host), by simp, hresume⟩
        | true =>
          -- a session can be resumed only if it is waiting, and then it is not new
          rcases ih with ⟨-, rfl, -⟩ | ⟨-, -, -, -, -, d, hd, hstarts⟩
          · exact absurd (hwaiting hresume) (by simp [Session.new, Stage.isWaiting])
          · exact ⟨d, List.mem_append_left _ hd, hstarts⟩

section

variable (h : History (.new formula maxPasses) commands made s)
include h

theorem History.maxPasses_eq : s.maxPasses = maxPasses := by
  rcases h.standing with ⟨-, rfl, -⟩ | ⟨n, e, -, rfl, -⟩ <;> rfl

theorem History.formula_eq : s.formula = formula := by
  rcases h.standing with ⟨-, rfl, -⟩ | ⟨n, e, -, rfl, -⟩ <;> rfl

/-- Every pass of a history is an evaluation on its own, with a number within the limit. -/
theorem History.isPass {p : Numbered O σ} (hp : p ∈ made) :
    IsPass formula 1 (max 1 maxPasses) p := by
  induction h with
  | new => simp at hp
  | @command commands made s s' h c host hc ih =>
    rcases List.mem_append.mp hp with hp | hp
    · exact ih hp
    · have hpass := Command.isPass hp
      rwa [h.formula_eq, h.maxPasses_eq] at hpass

theorem History.number_bounds {p : Numbered O σ} (hp : p ∈ made) :
    1 ≤ p.1 ∧ p.1 ≤ max 1 maxPasses :=
  (h.isPass hp).bounds

theorem History.passes_le : s.passes ≤ max 1 maxPasses := by
  rcases h.standing with ⟨-, rfl, -⟩ | ⟨n, e, -, rfl, hbound, -⟩
  · exact Nat.zero_le _
  · exact hbound

theorem History.pending_ne_nil {pending : List Request} (hstage : s.stage = .waiting pending) :
    pending ≠ [] := by
  rcases h.standing with ⟨-, rfl, -⟩ | ⟨n, e, -, rfl, -⟩
  · exact absurd hstage (by simp [Session.new])
  · exact (Evaluation.pending_of_stage hstage).2.2

theorem History.passes_eq_zero_iff : s.passes = 0 ↔ ∀ c ∈ commands, c.1.isResume = true := by
  rcases h.standing with ⟨-, rfl, hall⟩ | ⟨n, e, -, rfl, -, c, hc, hstarts⟩
  · exact ⟨fun _ => hall, fun _ => rfl⟩
  · constructor
    · intro hzero
      exact absurd hzero (Nat.succ_ne_zero n)
    · intro hall
      have hresume := hall c hc
      rw [hstarts] at hresume
      contradiction

theorem History.idle_of_passes_eq_zero (hzero : s.passes = 0) : s.stage = .idle := by
  rcases h.standing with ⟨-, rfl, -⟩ | ⟨n, e, -, rfl, -⟩
  · rfl
  · exact absurd hzero (Nat.succ_ne_zero n)

theorem History.last_stalled (hstage : s.stage = .idle) (hpos : 1 ≤ s.passes) :
    ∃ e, made.getLast? = some (s.passes, e) ∧ e.value = .suspended ∧ e.pending = [] := by
  rcases h.standing with ⟨-, rfl, -⟩ | ⟨n, e, hlast, rfl, -⟩
  · exact absurd hpos (by simp [Session.new])
  · exact ⟨e, hlast, Evaluation.stalled_of_stage hstage⟩

end

end

/-- The state of a session in the midst of any history. It waits only for requests that there are.
Its count of passes stays within the limit, the first pass excepted, and is zero only as long as
nothing was started or run. If it is idle after a pass, then the last pass made is the one counted,
and it stalled. Resuming is refused if the session does not wait or has spent its passes, and such a
refusal leaves it as it is and needs nothing of the formula. -/
theorem history_invariant (formula : Formula O σ) (maxPasses : Nat)
    (commands : List (Command O σ × σ)) (made : List (Numbered O σ)) (s : Session O σ)
    (h : History (.new formula maxPasses) commands made s) :
    (∀ pending, s.stage = .waiting pending → pending ≠ []) ∧
    s.passes ≤ max 1 maxPasses ∧
    (∀ largest, 1 ≤ largest → maxPasses ≤ largest → ∀ p ∈ made, p.1 ≤ largest) ∧
    (s.stage ≠ .idle → 1 ≤ s.passes) ∧
    (s.passes = 0 ↔ ∀ c ∈ commands, c.1.isResume = true) ∧
    (s.passes = 0 → s.stage = .idle) ∧
    (s.stage = .idle → 1 ≤ s.passes → ∃ e, made.getLast? = some (s.passes, e) ∧
      e.value = .suspended ∧ e.pending = []) ∧
    ∀ origin context host,
      ((∃ t, s.resume origin context host = some t ∧ t.result = .error .notWaiting) ↔
        s.stage.isWaiting = false) ∧
      (∀ n, (∃ t, s.resume origin context host = some t ∧ t.result = .error (.passLimit n)) ↔
        s.stage.isWaiting = true ∧ maxPasses ≤ s.passes ∧ n = s.passes) ∧
      ∀ t e, s.resume origin context host = some t → t.result = .error e →
        (e = .notWaiting ∨ ∃ n, e = .passLimit n) → t = s.refuse host e ∧
        ∀ other : Formula O σ, { s with formula := other }.resume origin context host =
          some ({ s with formula := other }.refuse host e) := by
  have hmax := h.maxPasses_eq
  subst hmax
  refine ⟨fun pending => h.pending_ne_nil, h.passes_le, ?_, ?_, h.passes_eq_zero_iff,
    h.idle_of_passes_eq_zero, h.last_stalled, fun origin context host =>
      ⟨resume_notWaiting_iff, fun n => resume_passLimit_iff, fun t e => resume_refused⟩⟩
  · intro largest hone hlargest p hp
    obtain ⟨-, hhigh⟩ := h.number_bounds hp
    omega
  · intro hstage
    have hne : s.passes ≠ 0 := fun hzero => hstage (h.idle_of_passes_eq_zero hzero)
    omega

theorem history_invariant_of_stalled :
    let formula : Formula String Bool := fun _ _ => do
      match ← Pass.onHost fun asks => (asks, asks) with
      | true => Pass.await (.pending ⟨.name "a", 0⟩)
      | false => return .suspended
    let sheet : Object := .host ⟨"sheet", 0⟩
    ∃ made s, History (.new formula 1) [(.resume "" sheet, true),
        (.run "" sheet fun _ _ host => (.error "offline", host), true), (.resume "" sheet, true),
        (.start "" sheet, false)] made s ∧
      s.stage = .idle ∧ s.passes = 1 ∧
      ∃ e, made.getLast? = some (1, e) ∧ e.value = .suspended ∧ e.pending = [] := by
  intro formula sheet
  have hnew : History (.new formula 1) [] [] (.new formula 1) := .new
  have hfailed := (hnew.command (.resume "" sheet) true rfl).command
    (.run "" sheet fun _ _ host => (.error "offline", host)) true rfl
  have hstarted := (hfailed.command (.resume "" sheet) true rfl).command (.start "" sheet) false rfl
  obtain ⟨-, -, -, -, -, -, hstalled, -⟩ := history_invariant formula 1 _ _ _ hstarted
  exact ⟨_, _, hstarted, rfl, rfl, hstalled rfl (Nat.le_refl 1)⟩

end Session

end ResumableFormulas
