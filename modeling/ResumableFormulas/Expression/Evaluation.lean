import ResumableFormulas.Expression.Syntax
import ResumableFormulas.Operator.Lifting

/-! # Evaluating expressions

The value of an expression within a pass. The operands of an operation are evaluated from left to
right before it is applied; only branches and the arguments of a call wait until they are asked for.
Functions of the host are given from outside, so evaluation goes by recursion on the expression.
Functions whose bodies are expressions are tied to it by `World.caller`, which takes the depth to
which calls may be nested.
-/
namespace ResumableFormulas

/-- What a host of state `σ` supplies besides its functions. -/
structure World (σ : Type) where
  read : Handle → Property → String → σ → Answer Value × σ
  /-- Answers a question that is about no object. -/
  respond : Response → String → σ → Answer Value × σ
  /-- A serial number that was not given out before. -/
  mint : σ → Nat × σ

/-- How the functions of a host are called. -/
abbrev Caller (σ : Type) : Type :=
  Handle → String → List Value → Pass String σ (Suspendable Value)

/-- The host made of a world and its functions. -/
def World.host {σ : Type} (world : World σ) (call : Caller σ) : Host String σ := ⟨world.read, call⟩

/-- What an expression is evaluated against. -/
structure Frame where
  origin : String
  context : Object
  arguments : List Value

/-- The value of a literal. -/
def Literal.realize {σ : Type} (mint : σ → Nat × σ) (l : Literal) (s : σ) : Value × σ :=
  match l with
  | .value v => (v, s)
  | .newObject name => let (n, s) := mint s; (.object (.host ⟨name, n⟩), s)
  | .newFunction name => let (n, s) := mint s; (.function ⟨name, n⟩, s)
  | .newError message => let (n, s) := mint s; (.object (.error (.custom ⟨message, n⟩ message)), s)

namespace Expr

variable {σ : Type}

/-- Runs computations one after another, however they come out. -/
def runAll : List (Pass String σ (Suspendable Value)) → Pass String σ (List (Suspendable Value))
  | [] => return []
  | x :: xs => do
    let a ← x
    return a :: (← runAll xs)

/-- Applies an operation to a value a number of times. -/
def iterate (f : Value → Pass String σ (Suspendable Value)) :
    Nat → Suspendable Value → Pass String σ (Suspendable Value)
  | 0, x => return x
  | n + 1, x => do iterate f n (← x.andThen f)

/-- A named operation on one scalar, entered into the journal. -/
def journaled (f : ScalarMap) (a : Scalar) : Pass String σ Scalar := do
  Pass.record (.applied f.name [a])
  return f.onScalar a

/-- A named operation on two scalars, entered into the journal. -/
def journaledPair (f : ScalarPairing) (a b : Scalar) : Pass String σ Value := do
  Pass.record (.applied f.name [a, b])
  return f.onScalars a b

variable (world : World σ) (call : Caller σ)

/-- The value of a literal within a pass. -/
def realize (l : Literal) : Pass String σ Value := Pass.onHost (l.realize world.mint)

mutual

/-- The value of an expression. -/
def eval (e : Expr) (frame : Frame) : Pass String σ (Suspendable Value) :=
  let host := world.host call
  let origin := frame.origin
  match e with
  | .literal l => do return .ready (← realize world l)
  | .suspended => return .suspended
  | .argument i => return .ready (frame.arguments[i]?.getD (.builtin .wrongArity))
  | .origin => return .ready (.text origin)
  | .context => return .ready (.object frame.context)
  | .question response => do
    Pass.await (← Pass.onHost (world.respond response origin))
  | .read x property fallback => do
    let v ← eval x frame
    Pass.readProperty host origin v property (← realize world fallback)
  | .unary operator x => do (← eval x frame).andThen (Pass.unary host operator origin)
  | .binary operator x y => do
    let v ← eval x frame
    v.andThenBoth (← eval y frame) (Pass.binary host operator origin)
  | .conditional c yes no => do
    match ← Pass.conditionOf host origin (← eval c frame) with
    | .suspended => return .suspended
    | .ready (.error other) => return .ready other
    | .ready (.ok b) =>
      Pass.choose (.ready b) fun b => if b then eval yes frame else eval no frame
  | .choice c yes no =>
    let known := match c with
      | some b => .ready b
      | none => .suspended
    Pass.choose known fun b => if b then eval yes frame else eval no frame
  | .condition x => do
    return (← Pass.conditionOf host origin (← eval x frame)).map fun
      | .ok b => .truth b
      | .error other => other
  | .text x => do return (← Pass.textOf host origin (← eval x frame)).map .text
  | .call f arguments fallback => do
    let target ← eval f frame
    let fallback ← realize world fallback
    Pass.apply host origin target (evalEach arguments frame) fallback
  | .strictCall f arguments fallback => do
    let target ← eval f frame
    let values ← runAll (evalEach arguments frame)
    let fallback ← realize world fallback
    Pass.apply host origin target (values.map fun v => return v) fallback
  | .count items => do
    return (← Suspendable.collect (evalEach items frame)).map fun values =>
      .number (Binary64.ofNat values.length)
  | .mapped f x => do (← eval x frame).andThen (Pass.liftUnary host (journaled f) origin)
  | .paired f x y => do
    let v ← eval x frame
    v.andThenBoth (← eval y frame) (Pass.liftBinary host (journaledPair f) origin)
  | .divided f x y => do
    let v ← eval x frame
    v.andThenBoth (← eval y frame)
      (Pass.liftBinary host (Pass.unlessZeroDivisor (journaledPair f)) origin)
  | .applied body x => do
    (← eval x frame).andThen fun v => eval body { frame with arguments := [v] }
  | .appliedBoth body x y => do
    let v ← eval x frame
    v.andThenBoth (← eval y frame) fun v w => eval body { frame with arguments := [v, w] }
  | .repeated times body x => do
    iterate (fun v => eval body { frame with arguments := [v] }) times (← eval x frame)
  | .same x y => do
    let v ← eval x frame
    v.andThenBoth (← eval y frame) fun v w => return .ready (.truth (v.equal w))
  | .kind x => do return (← eval x frame).map fun v => .text v.kindName
termination_by structural e

/-- The computations of the values of some expressions, none of them run. -/
def evalEach (es : List Expr) (frame : Frame) : List (Pass String σ (Suspendable Value)) :=
  match es with
  | [] => []
  | e :: es => eval e frame :: evalEach es frame
termination_by structural es

end

end Expr

/-- A function whose body is an expression. -/
structure FunctionDefinition where
  /-- The number of arguments it insists on, if any. -/
  arity : Option Nat
  body : Expr

namespace World

variable {σ : Type}

/-- The functions of a host with bodies that are expressions, for calls nested at most `depth` deep.
A deeper call has no outcome, and neither has the call of a function that is not defined. -/
def caller (world : World σ) (functions : Handle → Option FunctionDefinition) (context : Object) :
    Nat → Caller σ
  | 0, _, _, _ => failure
  | depth + 1, f, origin, arguments =>
    match functions f with
    | none => failure
    | some definition =>
      if definition.arity.any (· ≠ arguments.length) then return .ready (.builtin .wrongArity)
      else
        definition.body.eval world (world.caller functions context depth)
          ⟨origin, context, arguments⟩

end World

end ResumableFormulas
