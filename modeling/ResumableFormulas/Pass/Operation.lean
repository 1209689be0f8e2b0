import ResumableFormulas.Pass.Basic

/-! # The operations of a pass

Reading a property, applying a function, taking a value for a text or for a condition. Each takes
its operands as they come out of other operations, and a suspended operand makes the result
suspended without anything being asked of the host.
-/
namespace ResumableFormulas.Pass

variable {O σ : Type}

/-- Reads a property off a context. Scalars and functions have none, and reading one gives the
fallback. -/
def readProperty (host : Host O σ) (origin : O) (context : Suspendable Value) (property : Property)
    (fallback : Value) : Pass O σ (Suspendable Value) :=
  context.andThen fun
    | .object o => ask host origin o property
    | .scalar _ | .function _ => return .ready fallback

/-- A value taken for an operand: an object stands for its scalar, all others for themselves. -/
def coerce (host : Host O σ) (origin : O) (v : Value) : Pass O σ (Suspendable Value) :=
  readProperty host origin (.ready v) .asScalar v

/-- Picks a branch once the condition is known; the other branch is not run. -/
def choose {α : Type} (condition : Suspendable Bool) (branch : Bool → Pass O σ (Suspendable α)) :
    Pass O σ (Suspendable α) :=
  condition.andThen branch

/-- What a value stands for in the place of a function: an object for its scalar, which is not
replaced again, and all others for themselves. -/
def callee (host : Host O σ) (origin : O) : Value → Pass O σ (Suspendable Value)
  | .object o => ask host origin o .asScalar
  | v => return .ready v

/-- Applies a value to arguments. The arguments are run in order up to the first suspended one, and
only when the value in function position is there. A value that is no function gives the fallback,
unless an argument is suspended. -/
def apply (host : Host O σ) (origin : O) (f : Suspendable Value)
    (arguments : List (Pass O σ (Suspendable Value))) (fallback : Value) :
    Pass O σ (Suspendable Value) := do
  match ← f.andThen (callee host origin) with
  | .suspended => return .suspended
  | .ready target =>
    match ← Suspendable.collect arguments with
    | .suspended => return .suspended
    | .ready values =>
      match target with
      | .function handle => invoke host origin handle values
      | .scalar _ | .object _ => return .ready fallback

/-- The text of what an object answers for its text. -/
def answerText : Value → String
  | .scalar s => s.toText
  | .object _ => "[object]"
  | .function _ => "[function]"

/-- Takes a value for a text. -/
def textOf (host : Host O σ) (origin : O) (v : Suspendable Value) :
    Pass O σ (Suspendable String) :=
  v.andThen fun
    | .scalar s => return .ready s.toText
    | .function _ => return .ready "[function]"
    | .object o => do return (← ask host origin o .asText).map answerText

/-- Takes a value for a condition. What does not stand for a scalar is handed back, to be returned
in place of either branch. -/
def conditionOf (host : Host O σ) (origin : O) (v : Suspendable Value) :
    Pass O σ (Suspendable (Except Value Bool)) :=
  v.andThen fun v => do
    return (← readProperty host origin (.ready v) .asScalar v).map fun
      | .scalar s => .ok s.toTruth
      | other => .error other

end ResumableFormulas.Pass
