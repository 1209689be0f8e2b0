import ResumableFormulas.Session.Formula

/-! # Sessions

A session brings a formula to a value in as many passes as its requests need. Every pass starts from
scratch; between two passes the pending requests of the last one are handed out to be resolved. The
number of passes is limited, the first pass excepted.
-/
namespace ResumableFormulas

/-- Where a session stands. -/
inductive Stage where
  /-- No evaluation is under way. -/
  | idle
  /-- The last pass was suspended on these requests. -/
  | waiting (pending : List Request)
  /-- The last pass gave this value. -/
  | finished (value : Value)
deriving DecidableEq

def Stage.isFinished : Stage → Bool
  | finished _ => true
  | _ => false

def Stage.isWaiting : Stage → Bool
  | waiting _ => true
  | _ => false

/-- Why a session did not go on. -/
inductive SessionError where
  /-- There was nothing to resume. -/
  | notWaiting
  /-- The formula was still suspended after as many passes as are allowed. -/
  | passLimit (passes : Nat)
  /-- A pass was suspended with nothing pending, so resolving cannot help. -/
  | stalled (pass : Nat)
  /-- The requests could not be resolved. -/
  | unresolved (reason : String)
deriving DecidableEq, Repr

def SessionError.message : SessionError → String
  | notWaiting => "cannot resume: no evaluation is waiting on pending requests"
  | passLimit passes =>
    "formula still suspended after " ++ String.ofList (Nat.toDigits 10 passes) ++ " passes"
  | stalled pass =>
    "formula suspended on pass " ++ String.ofList (Nat.toDigits 10 pass)
      ++ " without reporting a pending request"
  | unresolved reason => "failed to resolve pending requests: " ++ reason

/-- A formula under evaluation. -/
structure Session (O σ : Type) where
  formula : Formula O σ
  maxPasses : Nat
  /-- The number of passes since the evaluation was started. -/
  passes : Nat
  stage : Stage

/-- The outcome of one operation on a session: its result, and what it leaves behind. -/
structure Turn (O σ α : Type) where
  result : Except SessionError α
  session : Session O σ
  host : σ
  /-- The journals of the passes of this turn, joined. -/
  journal : List (Event O)
  /-- The requests handed out to be resolved, for each time that this happened. -/
  rounds : List (List Request)

namespace Session

variable {O σ : Type}

/-- The number of passes allowed unless said otherwise. -/
def defaultMaxPasses : Nat := 32

/-- A session in which nothing has happened yet. -/
def new (formula : Formula O σ) (maxPasses : Nat) : Session O σ := ⟨formula, maxPasses, 0, .idle⟩

/-- A turn that leaves everything as it is. -/
def refuse (s : Session O σ) (host : σ) (e : SessionError) : Turn O σ Unit :=
  ⟨.error e, s, host, [], []⟩

/-- Runs one pass. -/
def pass (s : Session O σ) (origin : O) (context : Object) (host : σ) : Option (Turn O σ Unit) :=
  (s.formula.evaluate origin context host).map fun e =>
    let passes := s.passes + 1
    match e.value, e.pending with
    | .ready v, _ =>
      ⟨.ok (), { s with passes := passes, stage := .finished v }, e.host, e.journal, []⟩
    | .suspended, [] =>
      ⟨.error (.stalled passes), { s with passes := passes, stage := .idle }, e.host, e.journal, []⟩
    | .suspended, pending =>
      ⟨.ok (), { s with passes := passes, stage := .waiting pending }, e.host, e.journal, []⟩

/-- Starts a new evaluation with its first pass. -/
def start (s : Session O σ) (origin : O) (context : Object) (host : σ) : Option (Turn O σ Unit) :=
  { s with passes := 0, stage := .idle }.pass origin context host

/-- Runs another pass, after the requests of the last one were resolved. -/
def resume (s : Session O σ) (origin : O) (context : Object) (host : σ) :
    Option (Turn O σ Unit) :=
  match s.stage with
  | .waiting _ =>
    if s.maxPasses ≤ s.passes then some (s.refuse host (.passLimit s.passes))
    else s.pass origin context host
  | .idle | .finished _ => some (s.refuse host .notWaiting)

/-- Tries to make the requests of a pass available. It is told how many rounds there were before. -/
abbrev Resolver (σ : Type) : Type := Nat → List Request → σ → Except String Unit × σ

/-- Ends a run that has come so far. -/
def conclude {α : Type} (t : Turn O σ Unit) (result : Except SessionError α) : Turn O σ α :=
  ⟨result, t.session, t.host, t.journal, t.rounds⟩

/-- Resolves and resumes until there is a value, with `left` more passes allowed, which is what
`resume` would allow. The requests are handed out once more before the limit is found to be reached.
-/
def settle (resolve : Resolver σ) (origin : O) (context : Object) (left : Nat)
    (t : Turn O σ Unit) : Option (Turn O σ Value) :=
  match t.result, t.session.stage with
  | .error e, _ => some (conclude t (.error e))
  | .ok _, .finished v => some (conclude t (.ok v))
  | .ok _, .idle => some (conclude t (.error .notWaiting))
  | .ok _, .waiting pending =>
    let (resolved, host) := resolve t.rounds.length pending t.host
    let t := { t with host := host, rounds := t.rounds ++ [pending] }
    match resolved, left with
    | .error reason, _ => some (conclude t (.error (.unresolved reason)))
    | .ok _, 0 => some (conclude t (.error (.passLimit t.session.passes)))
    | .ok _, left + 1 => do
      let next ← t.session.pass origin context host
      settle resolve origin context left
        { next with journal := t.journal ++ next.journal, rounds := t.rounds }

/-- Evaluates to a value, having the requests of each pass resolved before the next one. -/
def run (s : Session O σ) (origin : O) (context : Object) (resolve : Resolver σ) (host : σ) :
    Option (Turn O σ Value) := do
  settle resolve origin context (s.maxPasses - 1) (← s.start origin context host)

end Session

end ResumableFormulas
