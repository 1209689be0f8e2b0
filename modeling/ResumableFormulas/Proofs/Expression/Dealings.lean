import ResumableFormulas.Proofs.Expression.OperatorTree

/-! # What a pass draws on

A pass has dealings with its host: literals are realized, properties are read, functions are called.
In each of them the host may supply it with a value. A pass holds what it was supplied with, the
object it is evaluated against, scalars, and two errors of its own. The operations of a pass, given
values that it holds, enter into dealings about such values only, and come to such values.
-/
namespace ResumableFormulas
open Pass

/-- What the evaluation of an expression can draw on. -/
structure Setting (σ : Type) where
  world : World σ
  call : Caller σ
  origin : String
  context : Object
  /-- The literals that may be written into the expression. -/
  allowed : Literal → Prop

/-- One dealing of a pass with the world outside the formula. -/
inductive Dealing where
  | literal (l : Literal)
  | read (target : Object) (property : Property)
  | call (function : Handle) (arguments : List Value)
  | applied (operation : String) (operands : List Scalar)

/-- The values that the pass brings into a dealing. -/
def Dealing.values : Dealing → List Value
  | literal _ | applied _ _ => []
  | read target _ => [.object target]
  | call function arguments => .function function :: arguments

/-- The values with which a pass turns to an object or a function of its host. -/
def Event.values {O : Type} : Event O → List Value
  | .read target _ _ _ => [.object target]
  | .called function _ arguments => .function function :: arguments
  | .returned _ _ | .applied _ _ => []

theorem Answer.eq_value_of_outcome {α : Type} {a : Answer α} {v : α} (h : a.outcome = .ready v) :
    a = .value v := by
  cases a with
  | value w => exact congrArg Answer.value (Suspendable.ready.inj h)
  | pending request => cases h

namespace Suspendable

theorem eq_ready_of_mem {α : Type} {r : Suspendable α} {v : α} (h : v ∈ r.toOption.toList) :
    r = .ready v := by
  cases r with
  | ready w =>
    obtain rfl := List.mem_singleton.mp h
    rfl
  | suspended => cases h

/-- What holds of a value if it is there. -/
def IfReady {α : Type} (post : List Value → α → Prop) (vs : List Value)
    (r : Suspendable α) : Prop :=
  ∀ a, r = .ready a → post vs a

end Suspendable

namespace Setting
open Suspendable (IfReady)

variable {σ α β γ : Type}

def host (S : Setting σ) : Host String σ := S.world.host S.call

/-- Has a dealing, and comes to what the host supplies in it. An error answers for itself, which
supplies nothing. -/
def deal (S : Setting σ) : Dealing → Pass String σ (List Value)
  | .literal l => do return [← Expr.realize S.world l]
  | .read target property => do
    let r ← ask S.host S.origin target property
    match target with
    | .host _ => return r.toOption.toList
    | .error _ => return []
  | .call function arguments => do
    return (← invoke S.host S.origin function arguments).toOption.toList
  | .applied operation operands => do
    record (.applied operation operands)
    return []

/-- The host supplies a value in a dealing: it stands for a literal, answers a reading, or is what a
function comes back with. -/
inductive Supplies (S : Setting σ) (p : Progress String σ) : Dealing → Value → Prop where
  | literal {l : Literal} (hl : S.allowed l) :
      Supplies S p (.literal l) (l.realize S.world.mint p.host).1
  | answered {handle : Handle} {property : Property} {v : Value}
      (h : (S.world.read handle property S.origin p.host).1 = .value v) :
      Supplies S p (.read (.host handle) property) v
  | returned {function : Handle} {arguments : List Value} {q : Progress String σ} {v : Value}
      (h : S.call function S.origin arguments
        { p with journal := p.journal ++ [.called function S.origin arguments] } =
          some (.ready v, q)) :
      Supplies S p (.call function arguments) v

section

variable (S : Setting σ) (vs : List Value)

/-- A value that a pass can hold once it was supplied with the values `vs`. -/
inductive Held : Value → Prop where
  | scalar (a : Scalar) : Held (.scalar a)
  | divisionByZero : Held (.builtin .divisionByZero)
  | functionOperand : Held (.builtin .functionOperand)
  | context : Held (.object S.context)
  | supplied {v : Value} (h : v ∈ vs) : Held v

/-- A dealing into which a pass can enter then. -/
structure Fits (d : Dealing) : Prop where
  values : ∀ v ∈ d.values, S.Held vs v
  literal : ∀ l, d = .literal l → S.allowed l

/-- The dealings of a pass one after another, all that it was supplied with in the end, and how far
it has come. -/
inductive Deals (p : Progress String σ) :
    List Dealing → List Value → Progress String σ → Prop where
  | none : Deals p [] vs p
  | next {ds : List Dealing} {vs' supplied : List Value} {q q' : Progress String σ}
      (h : Deals p ds vs' q) (d : Dealing) (hd : S.Fits vs' d)
      (hr : S.deal d q = some (supplied, q')) : Deals p (ds ++ [d]) (vs' ++ supplied) q'

/-- A computation that does nothing but dealings, and whose result is as described. -/
def Draws (post : List Value → α → Prop) (x : Pass String σ α) : Prop :=
  ∀ p a q, x p = some (a, q) → ∃ ds vs', S.Deals vs p ds vs' q ∧ post vs' a

/-- The same of a computation that waits to be run, for a value that is held if it is there. -/
def DrawsLater (x : Pass String σ (Suspendable Value)) : Prop :=
  ∀ vs', vs ⊆ vs' → S.Draws vs' (IfReady S.Held) x

end

variable {S : Setting σ} {vs vs' : List Value}

theorem Held.mono {v : Value} (h : S.Held vs v) (hvs : vs ⊆ vs') : S.Held vs' v := by
  cases h with
  | scalar a => exact .scalar a
  | divisionByZero => exact .divisionByZero
  | functionOperand => exact .functionOperand
  | context => exact .context
  | supplied h => exact .supplied (hvs h)

theorem Held.builtin {kind : BuiltinError} (h : S.Held vs (.builtin kind)) :
    kind = .divisionByZero ∨ kind = .functionOperand ∨ S.context = .error (.builtin kind) ∨
      .builtin kind ∈ vs := by
  generalize hv : Value.builtin kind = v at h
  cases h with
  | scalar a => simp [Value.builtin] at hv
  | divisionByZero => exact .inl (by simpa [Value.builtin] using hv)
  | functionOperand => exact .inr (.inl (by simpa [Value.builtin] using hv))
  | context => exact .inr (.inr (.inl (Value.object.inj hv).symm))
  | supplied h => exact .inr (.inr (.inr h))

theorem ifReady_mono {r : Suspendable Value} (h : r.IfReady S.Held vs) (hvs : vs ⊆ vs') :
    r.IfReady S.Held vs' :=
  fun v hv => (h v hv).mono hvs

theorem DrawsLater.now {x : Pass String σ (Suspendable Value)} (h : S.DrawsLater vs x) :
    S.Draws vs (IfReady S.Held) x :=
  h vs (List.Subset.refl vs)

theorem DrawsLater.mono {x : Pass String σ (Suspendable Value)} (h : S.DrawsLater vs x)
    (hvs : vs ⊆ vs') : S.DrawsLater vs' x :=
  fun vs'' hvs' => h vs'' (List.Subset.trans hvs hvs')

theorem ifReady_ready {post : List Value → α → Prop} {a : α} (h : post vs a) :
    (Suspendable.ready a).IfReady post vs := by
  intro b hb
  cases hb
  exact h

theorem ifReady_suspended {post : List Value → α → Prop} :
    (Suspendable.suspended : Suspendable α).IfReady post vs := by
  intro a ha
  cases ha

section

variable {p q r : Progress String σ} {ds ds' : List Dealing} {vs'' : List Value}

theorem Deals.append (h : S.Deals vs p ds vs' q) (h' : S.Deals vs' q ds' vs'' r) :
    S.Deals vs p (ds ++ ds') vs'' r := by
  induction h' with
  | none => rwa [List.append_nil]
  | next _ d hd hr ih =>
    rw [← List.append_assoc]
    exact ih.next d hd hr

theorem Deals.subset (h : S.Deals vs p ds vs' q) : vs ⊆ vs' := by
  induction h with
  | none => exact List.Subset.refl vs
  | next _ _ _ _ ih => exact fun v hv => List.mem_append_left _ (ih hv)

/-- A pass can hold the values of all its dealings in the end. -/
theorem Deals.held (h : S.Deals vs p ds vs' q) {d : Dealing} (hd : d ∈ ds) {v : Value}
    (hv : v ∈ d.values) : S.Held vs' v := by
  induction h with
  | none => simp at hd
  | @next ds vs' supplied q q' _ d' hfits _ ih =>
    have hvs : vs' ⊆ vs' ++ supplied := fun v hv => List.mem_append_left supplied hv
    rcases List.mem_append.mp hd with hd | hd
    · exact (ih hd).mono hvs
    · obtain rfl := List.mem_singleton.mp hd
      exact (hfits.values v hv).mono hvs

theorem invoke_eq_some {function : Handle} {arguments : List Value} {r : Suspendable Value}
    (h : invoke S.host S.origin function arguments p = some (r, q)) :
    ∃ q₁, S.call function S.origin arguments
        { p with journal := p.journal ++ [.called function S.origin arguments] } = some (r, q₁) ∧
      q.journal = q₁.journal ++ [.returned function r] := by
  obtain ⟨_, p₁, hcalled, h⟩ := bind_eq_some_iff.mp h
  obtain ⟨-, rfl⟩ := Prod.mk.inj (Option.some.inj hcalled)
  obtain ⟨r', q₁, hcall, h⟩ := bind_eq_some_iff.mp h
  obtain ⟨_, q₂, hreturned, h⟩ := bind_eq_some_iff.mp h
  obtain ⟨-, rfl⟩ := Prod.mk.inj (Option.some.inj hreturned)
  obtain ⟨rfl, rfl⟩ := Prod.mk.inj (Option.some.inj h)
  exact ⟨q₁, hcall, rfl⟩

theorem supplies_of_deal {d : Dealing} {supplied : List Value} {v : Value}
    (hd : S.Fits vs d) (hr : S.deal d p = some (supplied, q)) (hv : v ∈ supplied) :
    S.Supplies p d v := by
  cases d with
  | literal l =>
    obtain ⟨rfl, -⟩ := Prod.mk.inj (Option.some.inj hr)
    obtain rfl := List.mem_singleton.mp hv
    exact .literal (hd.literal l rfl)
  | applied operation operands =>
    obtain ⟨rfl, -⟩ := Prod.mk.inj (Option.some.inj hr)
    cases hv
  | call function arguments =>
    obtain ⟨r, p₁, hinvoke, hr⟩ := bind_eq_some_iff.mp hr
    obtain ⟨rfl, -⟩ := Prod.mk.inj (Option.some.inj hr)
    obtain ⟨q₁, hcall, -⟩ := invoke_eq_some hinvoke
    obtain rfl := Suspendable.eq_ready_of_mem hv
    exact .returned hcall
  | read target property =>
    obtain ⟨r, p₁, hask, hr⟩ := bind_eq_some_iff.mp hr
    cases target with
    | error e =>
      obtain ⟨rfl, -⟩ := Prod.mk.inj (Option.some.inj hr)
      cases hv
    | host handle =>
      obtain ⟨rfl, -⟩ := Prod.mk.inj (Option.some.inj hr)
      rw [ask_apply] at hask
      obtain ⟨rfl, -⟩ := Prod.mk.inj (Option.some.inj hask)
      exact .answered (Answer.eq_value_of_outcome (Suspendable.eq_ready_of_mem hv))

/-- What a pass was supplied with in the end, it had from the start, or it has come by it in one of
its dealings. -/
theorem Deals.supplied (h : S.Deals vs p ds vs' q) {v : Value} (hv : v ∈ vs') :
    v ∈ vs ∨ ∃ before d after vs₁ q₁, ds = before ++ d :: after ∧
      S.Deals vs p before vs₁ q₁ ∧ S.Supplies q₁ d v := by
  induction h with
  | none => exact .inl hv
  | @next ds vs' supplied q q' h d hd hr ih =>
    rcases List.mem_append.mp hv with hv | hv
    · obtain hv | ⟨before, d', after, vs₁, q₁, rfl, hbefore, hsupplies⟩ := ih hv
      · exact .inl hv
      · have hds : before ++ d' :: after ++ [d] = before ++ d' :: (after ++ [d]) := by simp
        exact .inr ⟨before, d', after ++ [d], vs₁, q₁, hds, hbefore, hsupplies⟩
    · exact .inr ⟨ds, d, [], vs', q, rfl, h, supplies_of_deal hd hr hv⟩

section

variable (hquiet : ∀ f arguments p r q, S.call f S.origin arguments p = some (r, q) →
  q.journal = p.journal)
include hquiet

theorem deal_journal {d : Dealing} {supplied : List Value}
    (hr : S.deal d p = some (supplied, q)) :
    ∃ events, q.journal = p.journal ++ events ∧ ∀ e ∈ events, e.values ⊆ d.values := by
  cases d with
  | literal l =>
    obtain ⟨-, rfl⟩ := Prod.mk.inj (Option.some.inj hr)
    exact ⟨[], by simp, by simp⟩
  | applied operation operands =>
    obtain ⟨-, rfl⟩ := Prod.mk.inj (Option.some.inj hr)
    exact ⟨_, rfl, by simp [Event.values]⟩
  | read target property =>
    obtain ⟨r, p₁, hask, hr⟩ := bind_eq_some_iff.mp hr
    have hq : p₁ = q := by
      cases target <;> exact (Prod.mk.inj (Option.some.inj hr)).2
    subst hq
    rw [ask_apply] at hask
    obtain ⟨-, rfl⟩ := Prod.mk.inj (Option.some.inj hask)
    exact ⟨_, rfl, by simp [Event.values, Dealing.values]⟩
  | call function arguments =>
    obtain ⟨r, p₁, hinvoke, hr⟩ := bind_eq_some_iff.mp hr
    obtain ⟨-, rfl⟩ := Prod.mk.inj (Option.some.inj hr)
    obtain ⟨q₁, hcall, hjournal⟩ := invoke_eq_some hinvoke
    have hkept := hquiet _ _ _ _ _ hcall
    refine ⟨[.called function S.origin arguments, .returned function r], ?_, ?_⟩
    · rw [hjournal, hkept, List.append_assoc]
      rfl
    · simp [Event.values, Dealing.values]

/-- If the functions of the host do not write into the journal themselves, then what is written into
it tells of the dealings. -/
theorem Deals.journal (h : S.Deals vs p ds vs' q) :
    ∃ events, q.journal = p.journal ++ events ∧
      ∀ e ∈ events, ∃ d ∈ ds, e.values ⊆ d.values := by
  induction h with
  | none => exact ⟨[], by simp, by simp⟩
  | next _ d hd hr ih =>
    obtain ⟨events, hjournal, hevents⟩ := ih
    obtain ⟨events', hjournal', hevents'⟩ := deal_journal hquiet hr
    refine ⟨events ++ events', by rw [hjournal', hjournal, List.append_assoc], fun e he => ?_⟩
    rcases List.mem_append.mp he with he | he
    · obtain ⟨d', hd', hvalues⟩ := hevents e he
      exact ⟨d', List.mem_append_left _ hd', hvalues⟩
    · exact ⟨d, by simp, hevents' e he⟩

end

end

namespace Draws

theorem pure {post : List Value → α → Prop} {a : α} (h : post vs a) :
    S.Draws vs post (pure a : Pass String σ α) := by
  intro p b q hb
  cases hb
  exact ⟨[], vs, .none, h⟩

theorem bind {mid : List Value → α → Prop} {post : List Value → β → Prop} {x : Pass String σ α}
    {f : α → Pass String σ β} (hx : S.Draws vs mid x)
    (hf : ∀ vs' a, vs ⊆ vs' → mid vs' a → S.Draws vs' post (f a)) :
    S.Draws vs post (x >>= f) := by
  intro p b q h
  obtain ⟨a, p₁, hxp, hfp⟩ := bind_eq_some_iff.mp h
  obtain ⟨ds, vs₁, hds, ha⟩ := hx p a p₁ hxp
  obtain ⟨ds', vs₂, hds', hb⟩ := hf vs₁ a hds.subset ha p₁ b q hfp
  exact ⟨ds ++ ds', vs₂, hds.append hds', hb⟩

theorem ready {post : List Value → α → Prop} {a : α} (h : post vs a) :
    S.Draws vs (IfReady post) (Pure.pure (.ready a)) :=
  pure (ifReady_ready h)

theorem suspended {post : List Value → α → Prop} :
    S.Draws vs (IfReady post) (Pure.pure .suspended) :=
  pure ifReady_suspended

theorem andThen {mid : List Value → α → Prop} {post : List Value → β → Prop}
    {x : Pass String σ (Suspendable α)} {f : α → Pass String σ (Suspendable β)}
    (hx : S.Draws vs (IfReady mid) x)
    (hf : ∀ vs' a, vs ⊆ vs' → mid vs' a → S.Draws vs' (IfReady post) (f a)) :
    S.Draws vs (IfReady post) (do (← x).andThen f) := by
  refine bind hx fun vs' r hvs hr => ?_
  cases r with
  | suspended => exact suspended
  | ready a => exact hf vs' a hvs (hr a rfl)

theorem map {mid : List Value → α → Prop} {post : List Value → β → Prop}
    {x : Pass String σ (Suspendable α)} {f : α → β} (hx : S.Draws vs (IfReady mid) x)
    (hf : ∀ vs' a, vs ⊆ vs' → mid vs' a → post vs' (f a)) :
    S.Draws vs (IfReady post) (do return (← x).map f) := by
  refine bind hx fun vs' r hvs hr => pure ?_
  cases r with
  | suspended => exact ifReady_suspended
  | ready a => exact ifReady_ready (hf vs' a hvs (hr a rfl))

theorem andThenBoth {post : List Value → γ → Prop} {x y : Pass String σ (Suspendable Value)}
    {k : Value → Value → Pass String σ (Suspendable γ)} (hx : S.Draws vs (IfReady S.Held) x)
    (hy : S.DrawsLater vs y)
    (hk : ∀ vs' v w, vs ⊆ vs' → S.Held vs' v → S.Held vs' w →
      S.Draws vs' (IfReady post) (k v w)) :
    S.Draws vs (IfReady post) (do (← x).andThenBoth (← y) k) := by
  refine bind hx fun vs₁ r hvs₁ hr => bind (hy vs₁ hvs₁) fun vs₂ r' hvs₂ hr' => ?_
  cases r with
  | suspended => exact suspended
  | ready v =>
    cases r' with
    | suspended => exact suspended
    | ready w =>
      have hv : S.Held vs₂ v := (hr v rfl).mono hvs₂
      exact hk vs₂ v w (List.Subset.trans hvs₁ hvs₂) hv (hr' w rfl)

end Draws

/-- One dealing, of which the host may supply the result. -/
theorem draws_of_deal {post : List Value → α → Prop} {x : Pass String σ α} {d : Dealing}
    (hd : S.Fits vs d)
    (hx : ∀ p a q, x p = some (a, q) → ∃ supplied, S.deal d p = some (supplied, q) ∧
      post (vs ++ supplied) a) : S.Draws vs post x := by
  intro p a q h
  obtain ⟨supplied, hdeal, ha⟩ := hx p a q h
  exact ⟨_, _, .next .none d hd hdeal, ha⟩

theorem held_answer {r : Suspendable Value} :
    r.IfReady S.Held (vs ++ r.toOption.toList) := by
  intro v hv
  subst hv
  exact .supplied (by simp [Suspendable.toOption])

theorem draws_realize {l : Literal} (hl : S.allowed l) :
    S.Draws vs S.Held (Expr.realize S.world l) := by
  refine draws_of_deal (d := .literal l) ⟨by simp [Dealing.values], ?_⟩ ?_
  · rintro l' hl'
    cases hl'
    exact hl
  · intro p v q h
    refine ⟨[v], ?_, .supplied (by simp)⟩
    rw [deal, bind_of_eq_some h]
    rfl

theorem draws_applied (operation : String) (operands : List Scalar) :
    S.Draws vs (fun _ _ => True) (record (.applied operation operands)) := by
  refine draws_of_deal (d := .applied operation operands) ⟨by simp [Dealing.values], by simp⟩ ?_
  intro p u q h
  refine ⟨[], ?_, trivial⟩
  rw [deal, bind_of_eq_some h]
  rfl

theorem draws_ask {target : Object} (ht : S.Held vs (.object target)) (property : Property) :
    S.Draws vs (IfReady S.Held) (ask S.host S.origin target property) := by
  have hd : S.Fits vs (.read target property) := ⟨by simpa [Dealing.values] using ht, by simp⟩
  refine draws_of_deal hd fun p r q h => ?_
  cases target with
  | host handle =>
    refine ⟨r.toOption.toList, ?_, held_answer⟩
    rw [deal, bind_of_eq_some h]
    rfl
  | error e =>
    refine ⟨[], ?_, ?_⟩
    · rw [deal, bind_of_eq_some h]
      rfl
    · rw [ask_apply] at h
      obtain ⟨rfl, -⟩ := Prod.mk.inj (Option.some.inj h)
      rw [List.append_nil]
      -- an error answers with its text, or else with itself
      refine ifReady_ready ?_
      cases property with
      | asText => exact .scalar _
      | asScalar | field name => exact ht

theorem draws_invoke {function : Handle} {arguments : List Value}
    (hf : S.Held vs (.function function)) (ha : ∀ v ∈ arguments, S.Held vs v) :
    S.Draws vs (IfReady S.Held) (invoke S.host S.origin function arguments) := by
  have hd : S.Fits vs (.call function arguments) := by
    refine ⟨fun v hv => ?_, by simp⟩
    rcases List.mem_cons.mp hv with rfl | hv
    · exact hf
    · exact ha v hv
  refine draws_of_deal hd fun p r q h => ⟨r.toOption.toList, ?_, held_answer⟩
  rw [deal, bind_of_eq_some h]
  rfl

/-! The operations of a pass -/

theorem draws_readProperty {v : Suspendable Value} {fallback : Value}
    (hv : v.IfReady S.Held vs) (hd : S.Held vs fallback) (property : Property) :
    S.Draws vs (IfReady S.Held) (readProperty S.host S.origin v property fallback) := by
  cases v with
  | suspended => exact .suspended
  | ready v =>
    cases v with
    | object o => exact draws_ask (hv _ rfl) property
    | scalar a => exact .ready hd
    | function f => exact .ready hd

theorem draws_coerce {v : Value} (hv : S.Held vs v) :
    S.Draws vs (IfReady S.Held) (coerce S.host S.origin v) :=
  draws_readProperty (ifReady_ready hv) hv .asScalar

theorem draws_callee {v : Value} (hv : S.Held vs v) :
    S.Draws vs (IfReady S.Held) (callee S.host S.origin v) := by
  cases v with
  | object o => exact draws_ask hv .asScalar
  | scalar a => exact .ready hv
  | function f => exact .ready hv

theorem draws_liftBinary {f : Scalar → Scalar → Pass String σ Value}
    (hf : ∀ vs a b, S.Draws vs S.Held (f a b)) {left right : Value} (hl : S.Held vs left)
    (hr : S.Held vs right) :
    S.Draws vs (IfReady S.Held) (liftBinary S.host f S.origin left right) := by
  refine .andThenBoth (draws_coerce hl) (fun vs' hvs => draws_coerce (hr.mono hvs)) ?_
  intro vs' v w _ hv hw
  cases v with
  | object o => exact .ready hv
  | function g => exact .ready .functionOperand
  | scalar a =>
    cases w with
    | object o => exact .ready hw
    | function g => exact .ready .functionOperand
    | scalar b => exact (hf vs' a b).bind fun _ v _ hv => .ready hv

theorem draws_liftUnary {f : Scalar → Pass String σ Scalar}
    (hf : ∀ vs a, S.Draws vs (fun _ _ => True) (f a)) {operand : Value} (ho : S.Held vs operand) :
    S.Draws vs (IfReady S.Held) (liftUnary S.host f S.origin operand) := by
  unfold liftUnary
  simp only [Suspendable.mapM_eq_andThen]
  refine .andThen (draws_coerce ho) fun vs' v _ hv => ?_
  cases v with
  | object o => exact .ready hv
  | function g => exact .ready .functionOperand
  | scalar a =>
    simp only [bind_assoc, pure_bind]
    exact (hf vs' a).bind fun _ b _ _ => .ready (.scalar b)

theorem held_onScalars (operator : BinaryOperator) (a b : Scalar) :
    S.Held vs (operator.onScalars a b) := by
  rw [operator.onScalars_eq, BinaryOperator.outcome]
  split
  · exact .divisionByZero
  · exact .scalar _

theorem draws_binary (operator : BinaryOperator) {left right : Value} (hl : S.Held vs left)
    (hr : S.Held vs right) :
    S.Draws vs (IfReady S.Held) (Pass.binary S.host operator S.origin left right) :=
  draws_liftBinary (fun _ a b => .pure (held_onScalars operator a b)) hl hr

theorem draws_unary (operator : UnaryOperator) {operand : Value} (ho : S.Held vs operand) :
    S.Draws vs (IfReady S.Held) (Pass.unary S.host operator S.origin operand) := by
  cases operator with
  | plus => exact .ready ho
  | minus => exact draws_liftUnary (fun _ a => .pure trivial) ho

theorem draws_textOf {v : Suspendable Value} (hv : v.IfReady S.Held vs) :
    S.Draws vs (IfReady fun _ _ => True) (textOf S.host S.origin v) := by
  cases v with
  | suspended => exact .suspended
  | ready v =>
    cases v with
    | scalar a => exact .ready trivial
    | function f => exact .ready trivial
    | object o => exact (draws_ask (hv _ rfl) .asText).map fun _ _ _ _ => trivial

/-- What is no condition is handed back, and is held. -/
theorem draws_conditionOf {v : Suspendable Value} (hv : v.IfReady S.Held vs) :
    S.Draws vs (IfReady fun vs r => ∀ other, r = .error other → S.Held vs other)
      (conditionOf S.host S.origin v) := by
  cases v with
  | suspended => exact .suspended
  | ready v =>
    refine (draws_coerce (hv v rfl)).map fun vs' w _ hw other hother => ?_
    cases w with
    | scalar a => cases hother
    | object o => cases hother; exact hw
    | function f => cases hother; exact hw

theorem draws_applyTo {fallback target : Value} {values : List Value} (hd : S.Held vs fallback)
    (ht : S.Held vs target) (hv : ∀ v ∈ values, S.Held vs v) :
    S.Draws vs (IfReady S.Held) (applyTo S.host S.origin fallback target values) := by
  cases target with
  | function f => exact draws_invoke ht hv
  | scalar a => exact .ready hd
  | object o => exact .ready hd

theorem draws_collect {xs : List (Pass String σ (Suspendable Value))}
    (hx : ∀ x ∈ xs, S.DrawsLater vs x) :
    S.Draws vs (IfReady fun vs values => ∀ v ∈ values, S.Held vs v)
      (Suspendable.collect xs) := by
  induction xs generalizing vs with
  | nil => exact .ready (by simp)
  | cons x xs ih =>
    have hfirst := (hx x List.mem_cons_self).now
    refine hfirst.andThen fun vs₁ v hvs₁ hv => ?_
    have hrest := ih fun y hy => (hx y (List.mem_cons_of_mem x hy)).mono hvs₁
    refine hrest.map fun vs₂ values hvs₂ hvalues w hw => ?_
    rcases List.mem_cons.mp hw with rfl | hw
    · exact hv.mono hvs₂
    · exact hvalues w hw

theorem draws_apply {f : Suspendable Value} {xs : List (Pass String σ (Suspendable Value))}
    {fallback : Value} (hf : f.IfReady S.Held vs) (hx : ∀ x ∈ xs, S.DrawsLater vs x)
    (hd : S.Held vs fallback) :
    S.Draws vs (IfReady S.Held) (apply S.host S.origin f xs fallback) := by
  rw [apply_eq]
  cases f with
  | suspended => exact .suspended
  | ready f =>
    refine (draws_callee (hf f rfl)).andThen fun vs₁ target hvs₁ ht => ?_
    have hvalues := draws_collect fun x hmem => (hx x hmem).mono hvs₁
    refine hvalues.andThen fun vs₂ values hvs₂ hvalues => ?_
    exact draws_applyTo (hd.mono (List.Subset.trans hvs₁ hvs₂)) (ht.mono hvs₂) hvalues

end Setting

end ResumableFormulas
