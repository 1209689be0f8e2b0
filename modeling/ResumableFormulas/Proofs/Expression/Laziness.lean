import ResumableFormulas.Proofs.Expression.Composition
import ResumableFormulas.Proofs.Pass.Context

/-! # Parts that are not evaluated

A branch that is not taken and an argument after a suspended one are not evaluated, and so nothing
in them matters to a pass. Two expressions are alike in a pass if they differ only in such parts, at
any depth and in as many places as there are. Which parts these are depends on how far the pass has
come when it gets there.
-/
namespace ResumableFormulas

namespace Pass

variable {O σ α β : Type}

theorem bind_congr_reached {x x' : Pass O σ α} {f f' : α → Pass O σ β} {p : Progress O σ}
    (hx : x' p = x p) (hf : ∀ a q, x p = some (a, q) → f' a q = f a q) :
    (x' >>= f') p = (x >>= f) p := by
  rw [bind_congr_at hx f']
  cases h : x p with
  | none =>
    change (x p).bind _ = (x p).bind _
    rw [h]
    rfl
  | some r =>
    rw [bind_of_eq_some h, bind_of_eq_some h]
    exact hf r.1 r.2 h

theorem andThen_congr_reached {x x' : Pass O σ (Suspendable α)}
    {f f' : α → Pass O σ (Suspendable β)} {p : Progress O σ} (hx : x' p = x p)
    (hf : ∀ a q, x p = some (.ready a, q) → f' a q = f a q) :
    (do (← x').andThen f') p = (do (← x).andThen f) p := by
  refine bind_congr_reached hx fun a q h => ?_
  cases a with
  | suspended => rfl
  | ready a => exact hf a q h

end Pass

namespace Expr
open Pass

variable {σ : Type} (world : World σ) (call : Caller σ)

/-- What decides between the branches of a conditional. -/
def decision (c : Expr) (frame : Frame) : Pass String σ (Suspendable (Except Value Bool)) := do
  conditionOf (world.host call) frame.origin (← c.eval world call frame)

/-- What a call applies, had before any of its arguments. -/
def target (f : Expr) (fallback : Literal) (frame : Frame) : Pass String σ (Suspendable Value) := do
  let v ← f.eval world call frame
  let _ ← realize world fallback
  v.andThen (callee (world.host call) frame.origin)

mutual

/-- Two expressions that differ, if at all, in parts that a pass which has come so far does not
evaluate. -/
inductive Alike : Frame → Progress String σ → Expr → Expr → Prop where
  | unchanged {frame p} (e : Expr) : Alike frame p e e
  | read {frame p x x'} (property : Property)
      (fallback : Literal) (hx : Alike frame p x x') :
      Alike frame p (.read x property fallback) (.read x' property fallback)
  | unary {frame p x x'} (operator : UnaryOperator)
      (hx : Alike frame p x x') : Alike frame p (.unary operator x) (.unary operator x')
  | binary {frame p x x' y y'} (operator : BinaryOperator)
      (hx : Alike frame p x x')
      (hy : ∀ v q, x.eval world call frame p = some (v, q) → Alike frame q y y') :
      Alike frame p (.binary operator x y) (.binary operator x' y')
  | conditional {frame p c c' yes yes' no no'}
      (hc : Alike frame p c c')
      (hyes : ∀ q, decision world call c frame p = some (.ready (.ok true), q) →
        Alike frame q yes yes')
      (hno : ∀ q, decision world call c frame p = some (.ready (.ok false), q) →
        Alike frame q no no') :
      Alike frame p (.conditional c yes no) (.conditional c' yes' no')
  | choice {frame p c yes yes' no no'}
      (hyes : c = some true → Alike frame p yes yes')
      (hno : c = some false → Alike frame p no no') :
      Alike frame p (.choice c yes no) (.choice c yes' no')
  | condition {frame p x x'} (hx : Alike frame p x x') :
      Alike frame p (.condition x) (.condition x')
  | text {frame p x x'} (hx : Alike frame p x x') :
      Alike frame p (.text x) (.text x')
  | call {frame p f f' arguments arguments'}
      (fallback : Literal) (hf : Alike frame p f f')
      (ha : ∀ t q, target world call f fallback frame p = some (.ready t, q) →
        AlikeEach frame q arguments arguments') :
      Alike frame p (.call f arguments fallback) (.call f' arguments' fallback)
  | count {frame p items items'}
      (hi : AlikeEach frame p items items') : Alike frame p (.count items) (.count items')
  | mapped {frame p x x'} (f : ScalarMap)
      (hx : Alike frame p x x') : Alike frame p (.mapped f x) (.mapped f x')
  | paired {frame p x x' y y'} (f : ScalarPairing)
      (hx : Alike frame p x x')
      (hy : ∀ v q, x.eval world call frame p = some (v, q) → Alike frame q y y') :
      Alike frame p (.paired f x y) (.paired f x' y')
  | divided {frame p x x' y y'} (f : ScalarPairing)
      (hx : Alike frame p x x')
      (hy : ∀ v q, x.eval world call frame p = some (v, q) → Alike frame q y y') :
      Alike frame p (.divided f x y) (.divided f x' y')
  | applied {frame p body body' x x'}
      (hx : Alike frame p x x')
      (hbody : ∀ v q, x.eval world call frame p = some (.ready v, q) →
        Alike { frame with arguments := [v] } q body body') :
      Alike frame p (.applied body x) (.applied body' x')
  | appliedBoth {frame p body body' x x' y y'}
      (hx : Alike frame p x x')
      (hy : ∀ v q, x.eval world call frame p = some (v, q) → Alike frame q y y')
      (hbody : ∀ v w q q', x.eval world call frame p = some (.ready v, q) →
        y.eval world call frame q = some (.ready w, q') →
        Alike { frame with arguments := [v, w] } q' body body') :
      Alike frame p (.appliedBoth body x y) (.appliedBoth body' x' y')
  | same {frame p x x' y y'} (hx : Alike frame p x x')
      (hy : ∀ v q, x.eval world call frame p = some (v, q) → Alike frame q y y') :
      Alike frame p (.same x y) (.same x' y')
  | kind {frame p x x'} (hx : Alike frame p x x') :
      Alike frame p (.kind x) (.kind x')

/-- The same for expressions of which the values are collected. After one that is not ready, any
others may stand. -/
inductive AlikeEach : Frame → Progress String σ → List Expr → List Expr → Prop where
  | nil {frame p} : AlikeEach frame p [] []
  | cons {frame p e e' es es'} (he : Alike frame p e e')
      (hes : ∀ v q, e.eval world call frame p = some (.ready v, q) → AlikeEach frame q es es') :
      AlikeEach frame p (e :: es) (e' :: es')

end

variable {world : World σ} {call : Caller σ} {frame : Frame} {p : Progress String σ}

theorem eval_conditional_eq_decision (c yes no : Expr) :
    (Expr.conditional c yes no).eval world call frame = (do
      (← decision world call c frame).andThen (unlessError fun b =>
        if b then yes.eval world call frame else no.eval world call frame)) := by
  simp only [eval_conditional, decision, bind_assoc]

theorem target_eq_some {f : Expr} {fallback : Literal} {v t : Suspendable Value} {d : Value}
    {p₁ p₂ p₃ : Progress String σ} (hf : f.eval world call frame p = some (v, p₁))
    (hd : realize world fallback p₁ = some (d, p₂))
    (ht : v.andThen (callee (world.host call) frame.origin) p₂ = some (t, p₃)) :
    target world call f fallback frame p = some (t, p₃) := by
  unfold target
  rw [bind_of_eq_some hf, bind_of_eq_some hd, ht]

mutual

theorem Alike.eval_eq {frame : Frame} {p : Progress String σ} {e e' : Expr}
    (h : Alike world call frame p e e') :
    e'.eval world call frame p = e.eval world call frame p := by
  cases h with
  | unchanged => rfl
  | read property fallback hx => exact bind_congr_at hx.eval_eq _
  | unary operator hx => exact bind_congr_at hx.eval_eq _
  | binary operator hx hy =>
    exact bind_congr_reached hx.eval_eq fun v q h => bind_congr_at (hy v q h).eval_eq _
  | conditional hc hyes hno =>
    rw [eval_conditional_eq_decision, eval_conditional_eq_decision]
    refine andThen_congr_reached (bind_congr_at hc.eval_eq _) fun r q h => ?_
    rcases r with other | _ | _
    · rfl
    · exact (hno q h).eval_eq
    · exact (hyes q h).eval_eq
  | @choice _ _ c yes yes' no no' hyes hno =>
    rcases c with _ | _ | _
    · rfl
    · exact (hno rfl).eval_eq
    · exact (hyes rfl).eval_eq
  | condition hx => exact bind_congr_at hx.eval_eq _
  | text hx => exact bind_congr_at hx.eval_eq _
  | call fallback hf ha =>
    refine bind_congr_reached hf.eval_eq fun v q h => bind_congr_reached rfl fun d q' h' => ?_
    rw [apply_eq, apply_eq]
    exact andThen_congr_reached rfl fun t q'' h'' =>
      bind_congr_at (ha t q'' (target_eq_some h h' h'')).collect_eq _
  | count hi => exact bind_congr_at hi.collect_eq _
  | mapped f hx => exact bind_congr_at hx.eval_eq _
  | paired f hx hy | divided f hx hy | same hx hy =>
    exact bind_congr_reached hx.eval_eq fun v q h => bind_congr_at (hy v q h).eval_eq _
  | applied hx hbody =>
    exact andThen_congr_reached hx.eval_eq fun v q h => (hbody v q h).eval_eq
  | appliedBoth hx hy hbody =>
    refine bind_congr_reached hx.eval_eq fun v q h => ?_
    refine bind_congr_reached (hy v q h).eval_eq fun w q' h' => ?_
    cases v with
    | suspended => rfl
    | ready v =>
      cases w with
      | suspended => rfl
      | ready w => exact (hbody v w q q' h h').eval_eq
  | kind hx => exact bind_congr_at hx.eval_eq _
termination_by sizeOf e

theorem AlikeEach.collect_eq {frame : Frame} {p : Progress String σ} {es es' : List Expr}
    (h : AlikeEach world call frame p es es') :
    Suspendable.collect (evalEach world call es' frame) p =
      Suspendable.collect (evalEach world call es frame) p := by
  cases h with
  | nil => rfl
  | cons he hes =>
    rw [evalEach, evalEach, collect_cons, collect_cons]
    exact andThen_congr_reached he.eval_eq fun v q h => bind_congr_at (hes v q h).collect_eq _
termination_by sizeOf es

end

section

variable {c f : Expr} {fallback : Literal}

theorem alike_of_undecided
    (h : ∀ b q, decision world call c frame p ≠ some (.ready (.ok b), q)) (yes yes' no no' : Expr) :
    Alike world call frame p (.conditional c yes no) (.conditional c yes' no') :=
  .conditional (.unchanged c) (fun q hq => absurd hq (h true q)) (fun q hq => absurd hq (h false q))

theorem alike_of_decided {b : Bool} {q : Progress String σ}
    (h : decision world call c frame p = some (.ready (.ok b), q)) (yes no other : Expr) :
    Alike world call frame p (.conditional c yes no)
      (if b then .conditional c yes other else .conditional c other no) := by
  cases b with
  | true =>
    refine .conditional (.unchanged c) (fun _ _ => .unchanged yes) fun q' hq' => ?_
    exact absurd (h.symm.trans hq') (by simp)
  | false =>
    refine .conditional (.unchanged c) (fun q' hq' => ?_) fun _ _ => .unchanged no
    exact absurd (h.symm.trans hq') (by simp)

theorem alike_of_no_target
    (h : ∀ t q, target world call f fallback frame p ≠ some (.ready t, q))
    (arguments arguments' : List Expr) :
    Alike world call frame p (.call f arguments fallback) (.call f arguments' fallback) :=
  .call fallback (.unchanged f) fun t q hq => absurd hq (h t q)

theorem alikeEach_of_not_ready {before : List Expr}
    (h : ∀ values q, Suspendable.collect (evalEach world call before frame) p ≠
      some (.ready values, q)) (after after' : List Expr) :
    AlikeEach world call frame p (before ++ after) (before ++ after') := by
  induction before generalizing p with
  | nil => exact absurd rfl (h [] p)
  | cons e before ih =>
    refine .cons (.unchanged e) fun v q hv => ih fun values q' hvalues => h (v :: values) q' ?_
    rw [evalEach, collect_cons, bind_of_eq_some hv, Suspendable.andThen_ready,
      bind_of_eq_some hvalues]
    rfl

theorem alike_of_not_ready {before : List Expr}
    (h : ∀ t q, target world call f fallback frame p = some (.ready t, q) → ∀ values q',
      Suspendable.collect (evalEach world call before frame) q ≠ some (.ready values, q'))
    (after after' : List Expr) :
    Alike world call frame p (.call f (before ++ after) fallback)
      (.call f (before ++ after') fallback) :=
  .call fallback (.unchanged f) fun t q hq => alikeEach_of_not_ready (h t q hq) after after'

end

/-- Alike expressions make the same pass: they come to the same value, have the same requests
pending, deal with the host in the same way and leave it in the same state, or neither of them ends.
Alike are conditionals that differ in the branch not taken, or in both branches if the condition
does not decide between them; and calls that differ in their arguments if there is nothing to apply,
or in those after the arguments of which the values cannot be collected. -/
theorem eval_eq_of_alike (world : World σ) (call : Caller σ) (frame : Frame)
    (p : Progress String σ) :
    (∀ e e', Alike world call frame p e e' →
      e'.eval world call frame p = e.eval world call frame p) ∧
    (∀ c yes no other b q, decision world call c frame p = some (.ready (.ok b), q) →
      Alike world call frame p (.conditional c yes no)
        (if b then .conditional c yes other else .conditional c other no)) ∧
    (∀ c, (∀ b q, decision world call c frame p ≠ some (.ready (.ok b), q)) → ∀ yes yes' no no',
      Alike world call frame p (.conditional c yes no) (.conditional c yes' no')) ∧
    (∀ f fallback, (∀ t q, target world call f fallback frame p ≠ some (.ready t, q)) →
      ∀ arguments arguments',
        Alike world call frame p (.call f arguments fallback) (.call f arguments' fallback)) ∧
    ∀ f fallback before, (∀ t q, target world call f fallback frame p = some (.ready t, q) →
        ∀ values q', Suspendable.collect (evalEach world call before frame) q ≠
          some (.ready values, q')) →
      ∀ after after', Alike world call frame p (.call f (before ++ after) fallback)
        (.call f (before ++ after') fallback) :=
  ⟨fun _ _ h => h.eval_eq, fun _ yes no other _ _ h => alike_of_decided h yes no other,
    fun _ h => alike_of_undecided h, fun _ _ h => alike_of_no_target h,
    fun _ _ _ h => alike_of_not_ready h⟩

theorem eval_eq_of_alike_of_endless :
    let busy : Request := ⟨.name "busy", 0⟩
    let world : World Unit := ⟨fun _ _ _ s => (.pending busy, s), fun _ _ s => (.pending busy, s),
      fun s => (1, s)⟩
    let call : Caller Unit := fun _ _ _ => failure
    let frame : Frame := ⟨"", .host ⟨"sheet", 0⟩, []⟩
    let nothing : Literal := .value (.text "")
    let field : Expr := .read .context (.field "a") nothing
    let function : Expr := .literal (.value (.function ⟨"f", 0⟩))
    let endless : Expr := .call function [] nothing
    let formula (dead : Expr) : Expr :=
      .binary .add (.conditional field dead dead) (.call function [field, dead] nothing)
    endless.eval world call frame ⟨(), [], []⟩ = none ∧
      (formula endless).eval world call frame ⟨(), [], []⟩ =
        (formula .origin).eval world call frame ⟨(), [], []⟩ ∧
      ∃ q, (formula endless).eval world call frame ⟨(), [], []⟩ = some (.suspended, q) ∧
        q.pending = [busy, busy] := by
  intro busy world call frame nothing field function endless formula
  let start : Progress String Unit := ⟨(), [], []⟩
  let asked : Progress String Unit :=
    ⟨(), [busy], [.read (.host ⟨"sheet", 0⟩) (.field "a") "" (.pending busy)]⟩
  obtain ⟨heval, -, hundecided, -, -⟩ := eval_eq_of_alike world call frame start
  obtain ⟨-, -, -, -, hnotReady⟩ := eval_eq_of_alike world call frame asked
  have hdecision : decision world call field frame start = some (.suspended, asked) := rfl
  have hleft : Alike world call frame start (.conditional field .origin .origin)
      (.conditional field endless endless) := by
    refine hundecided field (fun b q h => ?_) ..
    exact absurd (hdecision.symm.trans h) (by simp)
  have hright : Alike world call frame asked (.call function [field, .origin] nothing)
      (.call function [field, endless] nothing) := by
    refine hnotReady function nothing [field] ?_ [.origin] [endless]
    intro t q ht values q' hvalues
    have htarget : target world call function nothing frame asked =
        some (.ready (.function ⟨"f", 0⟩), asked) := rfl
    obtain ⟨-, rfl⟩ := Prod.mk.inj (Option.some.inj (htarget.symm.trans ht))
    cases hvalues
  have hformula : Alike world call frame start (formula .origin) (formula endless) := by
    refine .binary .add hleft fun v q h => ?_
    have hcondition : (Expr.conditional field .origin .origin).eval world call frame start =
        some (.suspended, asked) := rfl
    obtain ⟨-, rfl⟩ := Prod.mk.inj (Option.some.inj (hcondition.symm.trans h))
    exact hright
  have hequal := heval _ _ hformula
  exact ⟨rfl, hequal, _, hequal, rfl⟩

end Expr

end ResumableFormulas
