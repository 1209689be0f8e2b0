import ResumableFormulas.Operator.Lifting

/-! # Correspondences between passes

A correspondence relates computations within the passes of two hosts, and it is respected by every
way in which the operations of a pass put computations together. There are three such ways: to go on
with a ready value while another value is held back, to report a call, and to report an application.
Whatever is claimed of all formulas by induction is a correspondence; a property of single
computations is one that looks at one side only.
-/
namespace ResumableFormulas.Pass

variable {O σ σ' α β γ δ : Type}

/-- Goes on with a first value after a second one was had, and then with the second one. The second
computation is run even if the first one is suspended. -/
def interleave (x : Pass O σ (Suspendable α)) (y : Pass O σ (Suspendable β))
    (f : α → Pass O σ (Suspendable γ)) (k : γ → β → Pass O σ (Suspendable δ)) :
    Pass O σ (Suspendable δ) := do
  let a ← x
  let b ← y
  let c ← a.andThen f
  c.andThenBoth b k

/-- A computation between the two events that report it as a call. -/
def report (function : Handle) (origin : O) (arguments : List Value)
    (x : Pass O σ (Suspendable Value)) : Pass O σ (Suspendable Value) := do
  record (.called function origin arguments)
  let result ← x
  record (.returned function result)
  return result

/-- Goes on with what is no error; an error is the value of the whole. -/
def unlessError {ε : Type} (f : α → Pass O σ (Suspendable ε)) :
    Except ε α → Pass O σ (Suspendable ε)
  | .error e => return .ready e
  | .ok a => f a

theorem interleave_ready_ready (x : Pass O σ (Suspendable α))
    (f : α → Pass O σ (Suspendable γ)) :
    interleave x (pure (.ready ())) f (fun c _ => pure (.ready c)) = (do (← x).andThen f) := by
  unfold interleave
  congr 1
  funext a
  rw [pure_bind, ← bind_pure (a.andThen f)]
  simp only [bind_assoc, pure_bind]
  congr 1
  funext c
  cases c <;> rfl

theorem interleave_ready (x : Pass O σ (Suspendable α)) (y : Pass O σ (Suspendable β))
    (k : α → β → Pass O σ (Suspendable γ)) :
    interleave x y (fun a => pure (.ready a)) k = (do (← x).andThenBoth (← y) k) := by
  unfold interleave
  congr 1
  funext a
  congr 1
  funext b
  cases a <;> simp

/-- What an application comes to once the value in function position and the arguments are known. -/
def applyTo (host : Host O σ) (origin : O) (fallback target : Value) (values : List Value) :
    Pass O σ (Suspendable Value) :=
  match target with
  | .function handle => invoke host origin handle values
  | .scalar _ | .object _ => return .ready fallback

theorem apply_eq (host : Host O σ) (origin : O) (f : Suspendable Value)
    (arguments : List (Pass O σ (Suspendable Value))) (fallback : Value) :
    apply host origin f arguments fallback = (do
      (← f.andThen (callee host origin)).andThen fun target => do
        (← Suspendable.collect arguments).andThen (applyTo host origin fallback target)) := by
  unfold apply
  congr 1
  funext target
  cases target with
  | suspended => rfl
  | ready target =>
    simp only [Suspendable.andThen_ready]
    congr 1
    funext values
    cases values <;> rfl

/-- A relation between computations at an origin that all compositions respect. -/
structure Correspondence (origin : O) (σ σ' : Type) where
  rel : {α : Type} → Pass O σ (Suspendable α) → Pass O σ' (Suspendable α) → Prop
  ready : ∀ {α : Type} (a : α), rel (pure (.ready a)) (pure (.ready a))
  interleave : ∀ {α β γ δ : Type} {x : Pass O σ (Suspendable α)} {x' : Pass O σ' (Suspendable α)}
    {y : Pass O σ (Suspendable β)} {y' : Pass O σ' (Suspendable β)}
    {f : α → Pass O σ (Suspendable γ)} {f' : α → Pass O σ' (Suspendable γ)}
    {k : γ → β → Pass O σ (Suspendable δ)} {k' : γ → β → Pass O σ' (Suspendable δ)},
    rel x x' → rel y y' → (∀ a, rel (f a) (f' a)) → (∀ c b, rel (k c b) (k' c b)) →
    rel (Pass.interleave x y f k) (Pass.interleave x' y' f' k')
  report : ∀ (function : Handle) (arguments : List Value)
    {x : Pass O σ (Suspendable Value)} {x' : Pass O σ' (Suspendable Value)}, rel x x' →
    rel (Pass.report function origin arguments x) (Pass.report function origin arguments x')
  applied : ∀ {α : Type} (operation : String) (operands : List Scalar) (a : α),
    rel (do record (.applied operation operands); return .ready a)
      (do record (.applied operation operands); return .ready a)
  failure : ∀ {α : Type}, rel (failure : Pass O σ (Suspendable α)) failure

namespace Correspondence

variable {origin : O} (R : Correspondence origin σ σ')

theorem andThen {x : Pass O σ (Suspendable α)} {x' : Pass O σ' (Suspendable α)}
    {f : α → Pass O σ (Suspendable β)} {f' : α → Pass O σ' (Suspendable β)} (hx : R.rel x x')
    (hf : ∀ a, R.rel (f a) (f' a)) :
    R.rel (do (← x).andThen f) (do (← x').andThen f') := by
  rw [← interleave_ready_ready, ← interleave_ready_ready]
  exact R.interleave hx (R.ready ()) hf (fun c _ => R.ready c)

theorem andThenBoth {x : Pass O σ (Suspendable α)} {x' : Pass O σ' (Suspendable α)}
    {y : Pass O σ (Suspendable β)} {y' : Pass O σ' (Suspendable β)}
    {k : α → β → Pass O σ (Suspendable γ)} {k' : α → β → Pass O σ' (Suspendable γ)}
    (hx : R.rel x x') (hy : R.rel y y') (hk : ∀ a b, R.rel (k a b) (k' a b)) :
    R.rel (do (← x).andThenBoth (← y) k) (do (← x').andThenBoth (← y') k') := by
  rw [← interleave_ready, ← interleave_ready]
  exact R.interleave hx hy (fun a => R.ready a) hk

theorem map {x : Pass O σ (Suspendable α)} {x' : Pass O σ' (Suspendable α)} (hx : R.rel x x')
    (f : α → β) : R.rel (do return (← x).map f) (do return (← x').map f) := by
  have h := R.andThen hx (f := fun a => pure (.ready (f a))) (fun a => R.ready (f a))
  have hmap : ∀ {τ : Type} (r : Suspendable α), (r.andThen fun a => pure (.ready (f a))) =
      (pure (r.map f) : Pass O τ (Suspendable β)) := by
    intro τ r
    cases r <;> rfl
  simpa only [hmap] using h

theorem unlessError {ε : Type} {f : α → Pass O σ (Suspendable ε)}
    {f' : α → Pass O σ' (Suspendable ε)} (hf : ∀ a, R.rel (f a) (f' a)) (r : Except ε α) :
    R.rel (Pass.unlessError f r) (Pass.unlessError f' r) := by
  cases r with
  | error e => exact R.ready e
  | ok a => exact hf a

theorem collect {ι : Type} {f : ι → Pass O σ (Suspendable α)} {f' : ι → Pass O σ' (Suspendable α)}
    {is : List ι} (hf : ∀ i ∈ is, R.rel (f i) (f' i)) :
    R.rel (Suspendable.collect (is.map f)) (Suspendable.collect (is.map f')) := by
  induction is with
  | nil => exact R.ready []
  | cons i is ih =>
    have hrest := ih fun j hj => hf j (List.mem_cons_of_mem i hj)
    exact R.andThen (hf i List.mem_cons_self) fun a => R.map hrest (a :: ·)

theorem unlessZeroDivisor {f : Scalar → Scalar → Pass O σ Value}
    {f' : Scalar → Scalar → Pass O σ' Value}
    (hf : ∀ a b, R.rel (do return .ready (← f a b)) (do return .ready (← f' a b)))
    (a b : Scalar) : R.rel (do return .ready (← Pass.unlessZeroDivisor f a b))
      (do return .ready (← Pass.unlessZeroDivisor f' a b)) := by
  unfold Pass.unlessZeroDivisor
  split
  · exact R.ready (Value.builtin .divisionByZero)
  · exact hf a b

/-- The readings and the calls of two hosts correspond. -/
structure Hosts (host : Host O σ) (host' : Host O σ') : Prop where
  ask : ∀ target property, R.rel (Pass.ask host origin target property)
    (Pass.ask host' origin target property)
  call : ∀ function arguments, R.rel (host.call function origin arguments)
    (host'.call function origin arguments)

namespace Hosts

variable {R} {host : Host O σ} {host' : Host O σ'} (h : R.Hosts host host')
include h

theorem readProperty (v : Value) (property : Property) (fallback : Value) :
    R.rel (Pass.readProperty host origin (.ready v) property fallback)
      (Pass.readProperty host' origin (.ready v) property fallback) := by
  cases v with
  | scalar s => exact R.ready fallback
  | object o => exact h.ask o property
  | function f => exact R.ready fallback

theorem coerce (v : Value) : R.rel (Pass.coerce host origin v) (Pass.coerce host' origin v) :=
  h.readProperty v .asScalar v

theorem callee (v : Value) : R.rel (Pass.callee host origin v) (Pass.callee host' origin v) := by
  cases v with
  | scalar s => exact R.ready (Value.scalar s)
  | object o => exact h.ask o .asScalar
  | function f => exact R.ready (Value.function f)

theorem textOf {x : Pass O σ (Suspendable Value)} {x' : Pass O σ' (Suspendable Value)}
    (hx : R.rel x x') :
    R.rel (do Pass.textOf host origin (← x)) (do Pass.textOf host' origin (← x')) := by
  refine R.andThen hx fun v => ?_
  cases v with
  | scalar s => exact R.ready s.toText
  | object o => exact R.map (h.ask o .asText) answerText
  | function f => exact R.ready "[function]"

theorem conditionOf {x : Pass O σ (Suspendable Value)} {x' : Pass O σ' (Suspendable Value)}
    (hx : R.rel x x') :
    R.rel (do Pass.conditionOf host origin (← x)) (do Pass.conditionOf host' origin (← x')) :=
  R.andThen hx fun v => R.map (h.coerce v) _

theorem applyTo (fallback target : Value) (values : List Value) :
    R.rel (Pass.applyTo host origin fallback target values)
      (Pass.applyTo host' origin fallback target values) := by
  cases target with
  | scalar s => exact R.ready fallback
  | object o => exact R.ready fallback
  | function f => exact R.report f values (h.call f values)

theorem apply {ι : Type} (v : Value) {f : ι → Pass O σ (Suspendable Value)}
    {f' : ι → Pass O σ' (Suspendable Value)} {is : List ι} (hf : ∀ i ∈ is, R.rel (f i) (f' i))
    (fallback : Value) :
    R.rel (Pass.apply host origin (.ready v) (is.map f) fallback)
      (Pass.apply host' origin (.ready v) (is.map f') fallback) := by
  rw [apply_eq, apply_eq]
  exact R.andThen (h.callee v) fun target =>
    R.andThen (R.collect hf) fun values => h.applyTo fallback target values

theorem liftBinary {f : Scalar → Scalar → Pass O σ Value} {f' : Scalar → Scalar → Pass O σ' Value}
    (hf : ∀ a b, R.rel (do return .ready (← f a b)) (do return .ready (← f' a b)))
    (left right : Value) : R.rel (Pass.liftBinary host f origin left right)
      (Pass.liftBinary host' f' origin left right) := by
  refine R.andThenBoth (h.coerce left) (h.coerce right) fun l r => ?_
  cases l with
  | object o => exact R.ready (Value.object o)
  | function g => exact R.ready (Value.builtin .functionOperand)
  | scalar a =>
    cases r with
    | object o => exact R.ready (Value.object o)
    | function g => exact R.ready (Value.builtin .functionOperand)
    | scalar b => exact hf a b

theorem liftUnary {f : Scalar → Pass O σ Scalar} {f' : Scalar → Pass O σ' Scalar}
    (hf : ∀ a, R.rel (do return .ready (Value.scalar (← f a)))
      (do return .ready (Value.scalar (← f' a))))
    (operand : Value) : R.rel (Pass.liftUnary host f origin operand)
      (Pass.liftUnary host' f' origin operand) := by
  unfold Pass.liftUnary
  simp only [Suspendable.mapM_eq_andThen]
  refine R.andThen (h.coerce operand) fun v => ?_
  cases v with
  | object o => exact R.ready (Value.object o)
  | function g => exact R.ready (Value.builtin .functionOperand)
  | scalar a => simpa only [bind_assoc, pure_bind] using hf a

theorem binary (operator : BinaryOperator) (left right : Value) :
    R.rel (Pass.binary host operator origin left right)
      (Pass.binary host' operator origin left right) :=
  h.liftBinary (fun a b => R.ready (operator.onScalars a b)) left right

theorem unary (operator : UnaryOperator) (operand : Value) :
    R.rel (Pass.unary host operator origin operand)
      (Pass.unary host' operator origin operand) := by
  cases operator with
  | plus => exact R.ready operand
  | minus => exact h.liftUnary (fun a => R.ready (Value.scalar a.negated)) operand

end Hosts

end Correspondence

/-- A property of single computations that is kept when they are put one after another. -/
structure Closed (origin : O) (P : {α : Type} → Pass O σ α → Prop) : Prop where
  pure : ∀ {α : Type} (a : α), P (pure a)
  bind : ∀ {α β : Type} {x : Pass O σ α} {f : α → Pass O σ β}, P x → (∀ a, P (f a)) → P (x >>= f)
  called : ∀ function arguments, P (record (.called function origin arguments))
  returned : ∀ function result, P (record (.returned function result))
  applied : ∀ operation operands, P (record (.applied operation operands))
  failure : ∀ {α : Type}, P (failure : Pass O σ α)

namespace Closed

variable {origin : O} {P : {α : Type} → Pass O σ α → Prop} (h : Closed origin P)
include h

theorem andThen {f : α → Pass O σ (Suspendable β)} (hf : ∀ a, P (f a)) (a : Suspendable α) :
    P (a.andThen f) := by
  cases a with
  | ready a => exact hf a
  | suspended => exact h.pure Suspendable.suspended

theorem andThenBoth {k : α → β → Pass O σ (Suspendable γ)} (hk : ∀ a b, P (k a b))
    (a : Suspendable α) (b : Suspendable β) : P (a.andThenBoth b k) := by
  cases a with
  | ready a =>
    cases b with
    | ready b => exact hk a b
    | suspended => exact h.pure Suspendable.suspended
  | suspended => exact h.pure Suspendable.suspended

theorem interleave {x : Pass O σ (Suspendable α)} {y : Pass O σ (Suspendable β)}
    {f : α → Pass O σ (Suspendable γ)} {k : γ → β → Pass O σ (Suspendable δ)} (hx : P x) (hy : P y)
    (hf : ∀ a, P (f a)) (hk : ∀ c b, P (k c b)) : P (interleave x y f k) :=
  h.bind hx fun a => h.bind hy fun b => h.bind (h.andThen hf a) fun c => h.andThenBoth hk c b

theorem report {x : Pass O σ (Suspendable Value)} (hx : P x) (function : Handle)
    (arguments : List Value) : P (report function origin arguments x) :=
  h.bind (h.called function arguments) fun _ => h.bind hx fun result =>
    h.bind (h.returned function result) fun _ => h.pure result

theorem applied_ready (operation : String) (operands : List Scalar) (a : α) :
    P (do record (.applied operation operands); return Suspendable.ready a) :=
  h.bind (h.applied operation operands) fun _ => h.pure (Suspendable.ready a)

/-- The computations that have a closed property. -/
def correspondence : Correspondence origin σ σ where
  rel x _ := P x
  ready a := h.pure (Suspendable.ready a)
  interleave := h.interleave
  report function arguments _ _ hx := h.report hx function arguments
  applied := h.applied_ready
  failure := h.failure

end Closed

end ResumableFormulas.Pass
