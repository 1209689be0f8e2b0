import ResumableFormulas.Expression.Evaluation
import ResumableFormulas.Proofs.Pass.Correspondence
import ResumableFormulas.Session.Formula

/-! # Expressions composed of operations

An expression is built of the operations of a pass unless some part of it asks the host a question
about no object, and composed of them if, besides, no part of it is suspended from the start. A
correspondence that holds of the readings of two hosts, and of what is suspended if there is any,
holds of every expression so built, whatever functions with such bodies it calls: this is the one
induction over expressions and over the depth of calls that the theory of passes needs.
-/
namespace ResumableFormulas
open Pass

/-- An expression made of operations, with literals that are `allowed`, and with parts that are
suspended from the start if `stuck` admits them. -/
inductive Expr.Built (allowed : Literal → Prop) (stuck : Prop) : Expr → Prop where
  | literal {l : Literal} (hl : allowed l) : Built allowed stuck (.literal l)
  | suspended (hs : stuck) : Built allowed stuck .suspended
  | argument (index : Nat) : Built allowed stuck (.argument index)
  | origin : Built allowed stuck .origin
  | context : Built allowed stuck .context
  | read {x : Expr} (property : Property) {fallback : Literal} (hx : Built allowed stuck x)
      (hl : allowed fallback) : Built allowed stuck (.read x property fallback)
  | unary (operator : UnaryOperator) {x : Expr} (hx : Built allowed stuck x) :
      Built allowed stuck (.unary operator x)
  | binary (operator : BinaryOperator) {x y : Expr} (hx : Built allowed stuck x)
      (hy : Built allowed stuck y) : Built allowed stuck (.binary operator x y)
  | conditional {c yes no : Expr} (hc : Built allowed stuck c) (hyes : Built allowed stuck yes)
      (hno : Built allowed stuck no) : Built allowed stuck (.conditional c yes no)
  | choice {c : Option Bool} {yes no : Expr} (hc : c = none → stuck)
      (hyes : Built allowed stuck yes) (hno : Built allowed stuck no) :
      Built allowed stuck (.choice c yes no)
  | condition {x : Expr} (hx : Built allowed stuck x) : Built allowed stuck (.condition x)
  | text {x : Expr} (hx : Built allowed stuck x) : Built allowed stuck (.text x)
  | call {f : Expr} {arguments : List Expr} {fallback : Literal} (hf : Built allowed stuck f)
      (ha : ∀ a ∈ arguments, Built allowed stuck a) (hl : allowed fallback) :
      Built allowed stuck (.call f arguments fallback)
  | strictCall {f : Expr} {arguments : List Expr} {fallback : Literal} (hf : Built allowed stuck f)
      (ha : ∀ a ∈ arguments, Built allowed stuck a) (hl : allowed fallback) :
      Built allowed stuck (.strictCall f arguments fallback)
  | count {items : List Expr} (hi : ∀ x ∈ items, Built allowed stuck x) :
      Built allowed stuck (.count items)
  | mapped (f : ScalarMap) {x : Expr} (hx : Built allowed stuck x) :
      Built allowed stuck (.mapped f x)
  | paired (f : ScalarPairing) {x y : Expr} (hx : Built allowed stuck x)
      (hy : Built allowed stuck y) : Built allowed stuck (.paired f x y)
  | divided (f : ScalarPairing) {x y : Expr} (hx : Built allowed stuck x)
      (hy : Built allowed stuck y) : Built allowed stuck (.divided f x y)
  | applied {body x : Expr} (hbody : Built allowed stuck body) (hx : Built allowed stuck x) :
      Built allowed stuck (.applied body x)
  | appliedBoth {body x y : Expr} (hbody : Built allowed stuck body) (hx : Built allowed stuck x)
      (hy : Built allowed stuck y) : Built allowed stuck (.appliedBoth body x y)
  | repeated (times : Nat) {body x : Expr} (hbody : Built allowed stuck body)
      (hx : Built allowed stuck x) : Built allowed stuck (.repeated times body x)
  | same {x y : Expr} (hx : Built allowed stuck x) (hy : Built allowed stuck y) :
      Built allowed stuck (.same x y)
  | kind {x : Expr} (hx : Built allowed stuck x) : Built allowed stuck (.kind x)

/-- An expression in which nothing is suspended from the start. -/
abbrev Expr.Composed (allowed : Literal → Prop) (e : Expr) : Prop := e.Built allowed False

namespace Suspendable

/-- The values of computations that were all run, if all of them are ready. -/
def gather {α : Type} : List (Suspendable α) → Suspendable (List α)
  | [] => ready []
  | ready a :: rest => (gather rest).map (a :: ·)
  | suspended :: _ => suspended

theorem collect_map_pure {α : Type} {m : Type → Type} [Monad m] [LawfulMonad m]
    (values : List (Suspendable α)) :
    collect (values.map fun v => (pure v : m (Suspendable α))) = pure (gather values) := by
  induction values with
  | nil => rfl
  | cons v rest ih =>
    cases v with
    | ready a => simp only [List.map_cons, collect, ih, pure_bind, gather]
    | suspended => simp only [List.map_cons, collect, pure_bind, gather]

end Suspendable

namespace Expr
open Suspendable (gather)

variable {σ σ' : Type} {world : World σ} {world' : World σ'} {call : Caller σ} {call' : Caller σ'}

theorem evalEach_eq_map (world : World σ) (call : Caller σ) (es : List Expr) (frame : Frame) :
    evalEach world call es frame = es.map fun e => e.eval world call frame := by
  induction es with
  | nil => rfl
  | cons e es ih => rw [evalEach, ih, List.map_cons]

/-- Runs computations one after another, however they come out, and collects their values. -/
def runGather (xs : List (Pass String σ (Suspendable Value))) :
    Pass String σ (Suspendable (List Value)) := do
  return gather (← runAll xs)

theorem runGather_cons (x : Pass String σ (Suspendable Value))
    (xs : List (Pass String σ (Suspendable Value))) :
    runGather (x :: xs) = (do
      (← x).andThenBoth (← runGather xs) fun a rest => return .ready (a :: rest)) := by
  simp only [runGather, runAll, bind_assoc, pure_bind]
  congr 1
  funext a
  congr 1
  funext rest
  cases a <;> cases h : gather rest <;> simp [gather, h]

theorem eval_conditional (world : World σ) (call : Caller σ) (c yes no : Expr) (frame : Frame) :
    (Expr.conditional c yes no).eval world call frame = (do
      let r ← conditionOf (world.host call) frame.origin (← c.eval world call frame)
      r.andThen (unlessError fun b =>
        if b then yes.eval world call frame else no.eval world call frame)) := by
  rw [eval]
  congr 1
  funext v
  congr 1
  funext r
  rcases r with (_ | _) | _ <;> rfl

def conditionValue : Except Value Bool → Value
  | .ok b => .truth b
  | .error other => other

theorem eval_condition (world : World σ) (call : Caller σ) (x : Expr) (frame : Frame) :
    (Expr.condition x).eval world call frame = (do
      let r ← conditionOf (world.host call) frame.origin (← x.eval world call frame)
      return r.map conditionValue) := by
  rfl

def literalValue (world : World σ) (l : Literal) : Pass String σ (Suspendable Value) := do
  return .ready (← realize world l)

section

variable {origin : String} (R : Correspondence origin σ σ')

theorem rel_runGather {es : List Expr} {f : Expr → Pass String σ (Suspendable Value)}
    {f' : Expr → Pass String σ' (Suspendable Value)} (hf : ∀ e ∈ es, R.rel (f e) (f' e)) :
    R.rel (runGather (es.map f)) (runGather (es.map f')) := by
  induction es with
  | nil => exact R.ready []
  | cons e es ih =>
    have hrest := ih fun a ha => hf a (List.mem_cons_of_mem e ha)
    rw [List.map_cons, List.map_cons, runGather_cons, runGather_cons]
    exact R.andThenBoth (hf e List.mem_cons_self) hrest fun a rest => R.ready (a :: rest)

theorem rel_iterate {f : Value → Pass String σ (Suspendable Value)}
    {f' : Value → Pass String σ' (Suspendable Value)} (hf : ∀ v, R.rel (f v) (f' v)) (n : Nat)
    {x : Pass String σ (Suspendable Value)} {x' : Pass String σ' (Suspendable Value)}
    (hx : R.rel x x') : R.rel (do iterate f n (← x)) (do iterate f' n (← x')) := by
  induction n generalizing x x' with
  | zero => simpa only [iterate, bind_pure] using hx
  | succ n ih =>
    simp only [iterate]
    simpa only [bind_assoc] using ih (R.andThen hx hf)

/-- A fallback is had between an operand and what is done with it. -/
theorem rel_withLiteral {x : Pass String σ (Suspendable Value)}
    {x' : Pass String σ' (Suspendable Value)} {l : Literal}
    {k : Suspendable Value → Value → Pass String σ (Suspendable Value)}
    {k' : Suspendable Value → Value → Pass String σ' (Suspendable Value)} (hx : R.rel x x')
    (hl : R.rel (literalValue world l) (literalValue world' l))
    (hk : ∀ v fallback, R.rel (k (.ready v) fallback) (k' (.ready v) fallback))
    (hs : ∀ fallback, k .suspended fallback = pure .suspended)
    (hs' : ∀ fallback, k' .suspended fallback = pure .suspended) :
    R.rel (do k (← x) (← realize world l)) (do k' (← x') (← realize world' l)) := by
  have h := R.andThenBoth hx hl hk
  have hboth : ∀ {τ : Type} (world : World τ) (x : Pass String τ (Suspendable Value))
      (k : Suspendable Value → Value → Pass String τ (Suspendable Value)),
      (∀ fallback, k .suspended fallback = pure .suspended) →
      (do (← x).andThenBoth (← literalValue world l) fun v fallback => k (.ready v) fallback) =
        (do k (← x) (← realize world l)) := by
    intro τ world x k hk
    simp only [literalValue, bind_assoc, pure_bind]
    congr 1
    funext v
    congr 1
    funext fallback
    cases v with
    | ready v => rfl
    | suspended => exact (hk fallback).symm
  rw [hboth world x k hs, hboth world' x' k' hs'] at h
  exact h

def strictArguments (world : World σ) (xs : List (Pass String σ (Suspendable Value)))
    (fallback : Literal) : Pass String σ (Suspendable (List Value × Value)) := do
  (← runGather xs).andThenBoth (← literalValue world fallback) fun values v =>
    return .ready (values, v)

/-- A strict call holds its arguments back while the value in function position is replaced. -/
theorem strictCall_eq (host : Host String σ) (origin : String)
    (x : Pass String σ (Suspendable Value)) (xs : List (Pass String σ (Suspendable Value)))
    (l : Literal) :
    (do
      let target ← x
      let values ← runAll xs
      let fallback ← realize world l
      apply host origin target (values.map fun v => return v) fallback) =
      interleave x (strictArguments world xs l) (callee host origin)
        (fun target p => applyTo host origin p.2 target p.1) := by
  simp only [interleave, strictArguments, runGather, literalValue, apply_eq,
    Suspendable.collect_map_pure, bind_assoc, pure_bind]
  congr 1
  funext target
  congr 1
  funext values
  congr 1
  funext fallback
  cases gather values <;> simp only [Suspendable.andThenBoth_ready,
    Suspendable.andThenBoth_suspended_left, pure_bind] <;> congr 1 <;> funext c <;> cases c <;> rfl

theorem rel_strictCall (h : R.Hosts (world.host call) (world'.host call'))
    {x : Pass String σ (Suspendable Value)} {x' : Pass String σ' (Suspendable Value)}
    {es : List Expr} {f : Expr → Pass String σ (Suspendable Value)}
    {f' : Expr → Pass String σ' (Suspendable Value)} {l : Literal} (hx : R.rel x x')
    (hf : ∀ e ∈ es, R.rel (f e) (f' e))
    (hl : R.rel (literalValue world l) (literalValue world' l)) :
    R.rel
      (do
        let target ← x
        let values ← runAll (es.map f)
        let fallback ← realize world l
        apply (world.host call) origin target (values.map fun v => return v) fallback)
      (do
        let target ← x'
        let values ← runAll (es.map f')
        let fallback ← realize world' l
        apply (world'.host call') origin target (values.map fun v => return v) fallback) := by
  rw [strictCall_eq, strictCall_eq]
  have hargs : R.rel (strictArguments world (es.map f) l) (strictArguments world' (es.map f') l) :=
    R.andThenBoth (rel_runGather R hf) hl fun values v => R.ready (values, v)
  exact R.interleave hx hargs h.callee fun target p => h.applyTo p.2 target p.1

theorem rel_branch {yes no : Pass String σ (Suspendable Value)}
    {yes' no' : Pass String σ' (Suspendable Value)} (hyes : R.rel yes yes') (hno : R.rel no no')
    (b : Bool) : R.rel (if b then yes else no) (if b then yes' else no') := by
  cases b with
  | false => exact hno
  | true => exact hyes

/-- Expressions that are built correspond when the readings, the calls and the literals do, and with
them what is suspended from the start, if there is any. -/
theorem Built.rel {allowed : Literal → Prop} {stuck : Prop}
    (h : R.Hosts (world.host call) (world'.host call'))
    (hl : ∀ l, allowed l → R.rel (literalValue world l) (literalValue world' l))
    (hs : stuck → R.rel (pure (.suspended : Suspendable Value)) (pure .suspended)) {e : Expr}
    (he : e.Built allowed stuck) (context : Object) (arguments : List Value) :
    R.rel (e.eval world call ⟨origin, context, arguments⟩)
      (e.eval world' call' ⟨origin, context, arguments⟩) := by
  induction he generalizing arguments with
  | literal hallowed => exact hl _ hallowed
  | suspended hstuck => exact hs hstuck
  | argument index => exact R.ready _
  | origin => exact R.ready _
  | context => exact R.ready _
  | read property hx hallowed ih =>
    exact rel_withLiteral R (ih arguments) (hl _ hallowed)
      (fun v fallback => h.readProperty v property fallback) (fun _ => rfl) (fun _ => rfl)
  | unary operator hx ih => exact R.andThen (ih arguments) (h.unary operator)
  | binary operator hx hy ihx ihy =>
    exact R.andThenBoth (ihx arguments) (ihy arguments) (h.binary operator)
  | conditional hc hyes hno ihc ihyes ihno =>
    rw [eval_conditional, eval_conditional]
    simpa only [bind_assoc] using R.andThen (h.conditionOf (ihc arguments))
      (R.unlessError (rel_branch R (ihyes arguments) (ihno arguments)))
  | @choice c yes no hc hyes hno ihyes ihno =>
    rcases c with _ | _ | _
    · exact hs (hc rfl)
    · exact ihno arguments
    · exact ihyes arguments
  | condition hx ih =>
    rw [eval_condition, eval_condition]
    simpa only [bind_assoc] using R.map (h.conditionOf (ih arguments)) conditionValue
  | text hx ih =>
    simpa only [eval, bind_assoc] using R.map (h.textOf (ih arguments)) Value.text
  | call hf ha hallowed ihf iha =>
    simp only [eval, evalEach_eq_map]
    exact rel_withLiteral R (ihf arguments) (hl _ hallowed)
      (fun v fallback => h.apply v (fun a ha => iha a ha arguments) fallback)
      (fun _ => rfl) (fun _ => rfl)
  | strictCall hf ha hallowed ihf iha =>
    simp only [eval, evalEach_eq_map]
    exact rel_strictCall R h (ihf arguments) (fun a ha => iha a ha arguments) (hl _ hallowed)
  | count hi ih =>
    simp only [eval, evalEach_eq_map]
    exact R.map (R.collect fun x hx => ih x hx arguments) _
  | mapped f hx ih =>
    exact R.andThen (ih arguments) (h.liftUnary fun a => R.applied f.name [a] _)
  | paired f hx hy ihx ihy =>
    exact R.andThenBoth (ihx arguments) (ihy arguments)
      (h.liftBinary fun a b => R.applied f.name [a, b] _)
  | divided f hx hy ihx ihy =>
    exact R.andThenBoth (ihx arguments) (ihy arguments)
      (h.liftBinary (R.unlessZeroDivisor fun a b => R.applied f.name [a, b] _))
  | applied hbody hx ihbody ihx => exact R.andThen (ihx arguments) fun v => ihbody [v]
  | appliedBoth hbody hx hy ihbody ihx ihy =>
    exact R.andThenBoth (ihx arguments) (ihy arguments) fun v w => ihbody [v, w]
  | repeated times hbody hx ihbody ihx =>
    exact rel_iterate R (fun v => ihbody [v]) times (ihx arguments)
  | same hx hy ihx ihy =>
    exact R.andThenBoth (ihx arguments) (ihy arguments) fun v w => R.ready _
  | kind hx ih => exact R.map (ih arguments) _

end

end Expr

namespace World

variable {σ σ' : Type} {world : World σ} {world' : World σ'} {allowed : Literal → Prop}

/-- The formula of an expression, with functions whose bodies are expressions and whose calls are
nested at most `depth` deep. -/
def formula (world : World σ) (functions : Handle → Option FunctionDefinition) (depth : Nat)
    (e : Expr) : Formula String σ := fun origin context =>
  e.eval world (world.caller functions context depth) ⟨origin, context, []⟩

/-- Two worlds correspond if their readings and the literals that are allowed do. -/
structure Correspond {origin : String} (R : Correspondence origin σ σ') (world : World σ)
    (world' : World σ') (allowed : Literal → Prop) : Prop where
  ask : ∀ (call : Caller σ) (call' : Caller σ') target property,
    R.rel (Pass.ask (world.host call) origin target property)
      (Pass.ask (world'.host call') origin target property)
  literal : ∀ l, allowed l → R.rel (Expr.literalValue world l) (Expr.literalValue world' l)

variable {origin : String} {R : Correspondence origin σ σ'}
  {functions : Handle → Option FunctionDefinition}

section

variable {stuck : Prop} (h : Correspond R world world' allowed)
  (hs : stuck → R.rel (pure (.suspended : Suspendable Value)) (pure .suspended))
  (hf : ∀ f d, functions f = some d → d.body.Built allowed stuck)
include h hs hf

theorem Correspond.caller (context : Object) (depth : Nat) (f : Handle) (arguments : List Value) :
    R.rel (world.caller functions context depth f origin arguments)
      (world'.caller functions context depth f origin arguments) := by
  induction depth generalizing f arguments with
  | zero => exact R.failure
  | succ depth ih =>
    simp only [World.caller]
    cases hd : functions f with
    | none => exact R.failure
    | some d =>
      dsimp only
      split
      · exact R.ready (Value.builtin .wrongArity)
      · exact (hf f d hd).rel R ⟨h.ask _ _, ih⟩ h.literal hs context arguments

theorem Correspond.eval_built {e : Expr} (he : e.Built allowed stuck) (depth : Nat)
    (context : Object) (arguments : List Value) :
    R.rel (e.eval world (world.caller functions context depth) ⟨origin, context, arguments⟩)
      (e.eval world' (world'.caller functions context depth) ⟨origin, context, arguments⟩) :=
  he.rel R ⟨h.ask _ _, h.caller hs hf context depth⟩ h.literal hs context arguments

end

/-- Expressions that are built have every closed property of the readings and the literals. -/
theorem Correspond.eval_closed {P : {α : Type} → Pass String σ α → Prop} {hP : Closed origin P}
    {stuck : Prop} (h : Correspond hP.correspondence world world allowed)
    (hf : ∀ f d, functions f = some d → d.body.Built allowed stuck) {e : Expr}
    (he : e.Built allowed stuck) (depth : Nat) (context : Object) (arguments : List Value) :
    P (e.eval world (world.caller functions context depth) ⟨origin, context, arguments⟩) :=
  h.eval_built (fun _ => hP.pure Suspendable.suspended) hf he depth context arguments

theorem Correspond.eval (h : Correspond R world world' allowed)
    (hf : ∀ f d, functions f = some d → d.body.Composed allowed) {e : Expr}
    (he : e.Composed allowed) (depth : Nat) (context : Object) (arguments : List Value) :
    R.rel (e.eval world (world.caller functions context depth) ⟨origin, context, arguments⟩)
      (e.eval world' (world'.caller functions context depth) ⟨origin, context, arguments⟩) :=
  h.eval_built False.elim hf he depth context arguments

end World

end ResumableFormulas
