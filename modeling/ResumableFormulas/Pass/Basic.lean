import ResumableFormulas.Pass.Request
import ResumableFormulas.Pass.Suspendable
import ResumableFormulas.Value.Basic

/-! # Passes

A pass is one attempt to evaluate a formula against a host of state `σ`. Along the way it collects
the requests that kept it from going on, in the order in which they were met and with repetitions,
and a journal of its dealings with the world outside the formula. `O` is the type of origins; the
origin of an evaluation is handed to the host with every reading and every call. A pass need not
end, and one that does not has no outcome.
-/
namespace ResumableFormulas

/-- An entry of the journal. -/
inductive Event (O : Type) where
  /-- A property of an object was read. -/
  | read (target : Object) (property : Property) (origin : O) (answer : Answer Value)
  /-- A function of the host was called. -/
  | called (function : Handle) (origin : O) (arguments : List Value)
  /-- A function of the host came back. -/
  | returned (function : Handle) (result : Suspendable Value)
  /-- A named operation was applied to scalars. -/
  | applied (operation : String) (operands : List Scalar)

/-- How far a pass has come. -/
structure Progress (O σ : Type) where
  host : σ
  pending : List Request
  journal : List (Event O)

/-- A computation within a pass. -/
abbrev Pass (O σ : Type) (α : Type) : Type := StateT (Progress O σ) Option α

/-- What a pass may ask of its host: properties of its objects, and calls of its functions. A call
is a part of the pass and may do all that a formula does. -/
structure Host (O σ : Type) where
  read : Handle → Property → O → σ → Answer Value × σ
  call : Handle → O → List Value → Pass O σ (Suspendable Value)

namespace Pass

variable {O σ α β : Type}

/-- Lets the host do something. -/
def onHost (f : σ → α × σ) : Pass O σ α := fun p =>
  let (a, host) := f p.host
  some (a, { p with host := host })

/-- Enters an event into the journal. -/
def record (e : Event O) : Pass O σ Unit := fun p =>
  some ((), { p with journal := p.journal ++ [e] })

/-- Takes an answer for a value; a pending one is noted and suspends. -/
def await (answer : Answer α) : Pass O σ (Suspendable α) := fun p =>
  match answer with
  | .value a => some (.ready a, p)
  | .pending r => some (.suspended, { p with pending := p.pending ++ [r] })

/-- The answer of an object. Errors answer for themselves, all others through their host. -/
def answer (host : Host O σ) (origin : O) (target : Object) (property : Property) :
    Pass O σ (Answer Value) :=
  match target with
  | .error e => return .value (e.read property)
  | .host handle => onHost (host.read handle property origin)

/-- Reads a property of an object. -/
def ask (host : Host O σ) (origin : O) (target : Object) (property : Property) :
    Pass O σ (Suspendable Value) := do
  let a ← answer host origin target property
  record (.read target property origin a)
  await a

/-- Calls a function of the host. -/
def invoke (host : Host O σ) (origin : O) (function : Handle) (arguments : List Value) :
    Pass O σ (Suspendable Value) := do
  record (.called function origin arguments)
  let result ← host.call function origin arguments
  record (.returned function result)
  return result

@[simp] theorem pure_apply (a : α) (p : Progress O σ) : (pure a : Pass O σ α) p = some (a, p) := rfl

@[simp] theorem failure_apply (p : Progress O σ) : (failure : Pass O σ α) p = none := rfl

/-- A computation ends after another one if that one ends and it ends from there. -/
theorem bind_eq_some_iff {x : Pass O σ α} {f : α → Pass O σ β} {p : Progress O σ}
    {r : β × Progress O σ} :
    (x >>= f) p = some r ↔ ∃ a p₁, x p = some (a, p₁) ∧ f a p₁ = some r := by
  change (x p).bind (fun s => f s.1 s.2) = some r ↔ _
  rw [Option.bind_eq_some_iff, Prod.exists]

theorem bind_of_eq_some {x : Pass O σ α} {f : α → Pass O σ β} {p p₁ : Progress O σ} {a : α}
    (h : x p = some (a, p₁)) : (x >>= f) p = f a p₁ := by
  change (x p).bind (fun s => f s.1 s.2) = f a p₁
  rw [h]
  rfl

@[simp] theorem onHost_apply (f : σ → α × σ) (p : Progress O σ) :
    onHost f p = some ((f p.host).1, { p with host := (f p.host).2 }) := rfl

@[simp] theorem record_apply (e : Event O) (p : Progress O σ) :
    record e p = some ((), { p with journal := p.journal ++ [e] }) := rfl

@[simp] theorem await_value (a : α) (p : Progress O σ) :
    await (.value a) p = some (.ready a, p) := rfl

@[simp] theorem await_pending (r : Request) (p : Progress O σ) :
    await (.pending r : Answer α) p =
      some (.suspended, { p with pending := p.pending ++ [r] }) := rfl

end Pass

end ResumableFormulas
