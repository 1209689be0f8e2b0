import ResumableFormulas.Proofs.Session.History

/-! # Every pass starts from scratch

Whatever a session has gone through, it is started and run like a new one. To resume it is to make
the first pass of a new one, only counted as the next one, and so the requests that it waits for are
those of its last pass, with none left over from an earlier one.
-/
namespace ResumableFormulas

variable {O σ α : Type}

/-- The turn of a pass that is counted as the `n`-th one. -/
def Turn.numbered (t : Turn O σ Unit) (n : Nat) : Turn O σ Unit :=
  { t with
    result := match t.result with
      | .error (.stalled _) => .error (.stalled n)
      | result => result
    session := { t.session with passes := n } }

/-- A turn that was not taken. -/
def Turn.IsRefused (t : Turn O σ α) : Prop :=
  t.result = .error .notWaiting ∨ ∃ n, t.result = .error (.passLimit n)

namespace Session

variable {formula : Formula O σ} {maxPasses : Nat} {origin : O} {context : Object} {host : σ}
  {s : Session O σ}

theorem start_eq_new (s : Session O σ) (origin : O) (context : Object) (host : σ) :
    s.start origin context host = (new s.formula s.maxPasses).start origin context host := rfl

theorem run_eq_new (s : Session O σ) (origin : O) (context : Object) (resolve : Resolver σ)
    (host : σ) : s.run origin context resolve host =
      (new s.formula s.maxPasses).run origin context resolve host := rfl

theorem start_passes {t : Turn O σ Unit} (h : s.start origin context host = some t) :
    t.session.passes = 1 := by
  obtain ⟨e, -, hsession⟩ := pass_session h
  rw [hsession]
  rfl

/-- A pass is the first one of a new session but for its number. -/
theorem pass_eq_numbered_start (s : Session O σ) (origin : O) (context : Object) (host : σ) :
    s.pass origin context host = ((new s.formula s.maxPasses).start origin context host).map
      (·.numbered (s.passes + 1)) := by
  have hstart : (new s.formula s.maxPasses).start origin context host =
      (s.formula.evaluate origin context host).map fun e =>
        ⟨e.result 1, (new s.formula s.maxPasses).after 1 e.stage, e.host, e.journal, []⟩ :=
    pass_eq _ origin context host
  rw [hstart, pass_eq, Option.map_map]
  congr 1
  funext e
  have hresult : e.result (s.passes + 1) = match e.result 1 with
      | .error (.stalled _) => .error (.stalled (s.passes + 1))
      | result => result := by
    unfold Evaluation.result
    split <;> rfl
  simp only [Function.comp_apply, Turn.numbered, hresult, after, new]

theorem resume_eq_numbered_start
    (h : ∀ t, s.resume origin context host = some t → ¬ t.IsRefused) :
    s.resume origin context host = ((new s.formula s.maxPasses).start origin context host).map
      (·.numbered (s.passes + 1)) := by
  obtain ⟨-, hr⟩ | ⟨-, -, hr⟩ | ⟨-, -, hr⟩ := resume_cases s origin context host
  · exact absurd (.inl rfl) (h _ hr)
  · exact absurd (.inr ⟨_, rfl⟩) (h _ hr)
  · rw [hr, pass_eq_numbered_start]

section

variable {commands : List (Command O σ × σ)} {made : List (Numbered O σ)}
  (h : History (.new formula maxPasses) commands made s)
include h

theorem History.waiting_on_last {pending : List Request} (hstage : s.stage = .waiting pending) :
    ∃ e origin context before, made.getLast? = some (s.passes, e) ∧
      formula origin context ⟨before, [], []⟩ =
        some (.suspended, ⟨e.host, pending, e.journal⟩) := by
  rcases h.standing with ⟨-, rfl, -⟩ | ⟨n, e, hlast, rfl, -⟩
  · exact absurd hstage (by simp [Session.new])
  · obtain ⟨hv, rfl, -⟩ := Evaluation.pending_of_stage hstage
    obtain ⟨origin, context, before, he⟩ := (h.isPass (List.mem_of_getLast? hlast)).evaluated
    have hpass := Formula.evaluate_eq_some_iff.mp he
    rw [hv] at hpass
    exact ⟨e, origin, context, before, hlast, hpass⟩

end

/-- In the midst of any history a session is started and run like a new one with the same formula
and limit, and resumed like a new one is started, except for the number of the pass. The requests it
waits for are all those that its last pass has left, which had none when it began. -/
theorem history_forgotten (formula : Formula O σ) (maxPasses : Nat)
    (commands : List (Command O σ × σ)) (made : List (Numbered O σ)) (s : Session O σ)
    (h : History (.new formula maxPasses) commands made s) :
    (∀ origin context host,
      s.start origin context host = (new formula maxPasses).start origin context host ∧
      (∀ t, s.start origin context host = some t → t.session.passes = 1) ∧
      (∀ resolve, s.run origin context resolve host =
        (new formula maxPasses).run origin context resolve host) ∧
      ((∀ t, s.resume origin context host = some t → ¬ t.IsRefused) →
        s.resume origin context host = ((new formula maxPasses).start origin context host).map
          (·.numbered (s.passes + 1)))) ∧
    ∀ pending, s.stage = .waiting pending →
      ∃ e origin context before, made.getLast? = some (s.passes, e) ∧
        formula origin context ⟨before, [], []⟩ =
          some (.suspended, ⟨e.host, pending, e.journal⟩) := by
  refine ⟨?_, fun pending hstage => h.waiting_on_last hstage⟩
  have hformula := h.formula_eq
  have hmax := h.maxPasses_eq
  subst hformula hmax
  intro origin context host
  exact ⟨start_eq_new s origin context host, fun t => start_passes,
    fun resolve => run_eq_new s origin context resolve host, resume_eq_numbered_start⟩

theorem history_forgotten_of_failed_run :
    let formula : Formula String Nat := fun _ _ => do
      let n ← Pass.onHost fun n => (n, n)
      Pass.await (.pending ⟨.number n, 0⟩)
    let sheet : Object := .host ⟨"sheet", 0⟩
    let offline : Resolver Nat := fun _ _ n => (.error "offline", n)
    ∃ made s, History (.new formula 3) [(.run "" sheet offline, 1), (.resume "" sheet, 2)] made s ∧
      s.stage = .waiting [⟨.number 2, 0⟩] ∧ s.passes = 2 ∧
      s.run "" sheet offline 7 = (new formula 3).run "" sheet offline 7 ∧
      s.resume "" sheet 7 = ((new formula 3).start "" sheet 7).map (·.numbered 3) ∧
      ∃ e, made.getLast? = some (2, e) := by
  intro formula sheet offline
  have hnew : History (.new formula 3) [] [] (.new formula 3) := .new
  have hfailed := hnew.command (.run "" sheet offline) 1 rfl
  have hresumed := hfailed.command (.resume "" sheet) 2 rfl
  obtain ⟨hlike, hwaiting⟩ := history_forgotten formula 3 _ _ _ hresumed
  obtain ⟨-, -, hrun, hresume⟩ := hlike "" sheet 7
  obtain ⟨e, -, -, -, hlast, -⟩ := hwaiting _ rfl
  refine ⟨_, _, hresumed, rfl, rfl, hrun offline, hresume ?_, e, hlast⟩
  intro t ht
  obtain rfl := Option.some.inj ht
  rintro (hrefused | ⟨n, hrefused⟩) <;> contradiction

end Session

end ResumableFormulas
