import ResumableFormulas.Proofs.Expression.Composition
import ResumableFormulas.Proofs.Expression.Dealings

/-! # Where errors come from

Whatever functions it calls, an expression of the operations and the operators draws on its host for
every object and every function that it has to do with. The division by zero and the function in
place of an operand are the only builtin errors that it makes itself. The other ones come up only if
the host has supplied them before.
-/
namespace ResumableFormulas
open Pass

/-- An expression of operations and operators, with literals that are `allowed`, in the scope of `n`
arguments. Named operations on two scalars, which may have any value for a result, are left out. -/
inductive Expr.Plain (allowed : Literal → Prop) : Nat → Expr → Prop where
  | literal {n l} (hl : allowed l) : Plain allowed n (.literal l)
  | suspended {n} : Plain allowed n .suspended
  | argument {n index} (hi : index < n) : Plain allowed n (.argument index)
  | origin {n} : Plain allowed n .origin
  | context {n} : Plain allowed n .context
  | read {n x fallback} (property : Property) (hx : Plain allowed n x) (hl : allowed fallback) :
      Plain allowed n (.read x property fallback)
  | unary {n x} (operator : UnaryOperator) (hx : Plain allowed n x) :
      Plain allowed n (.unary operator x)
  | binary {n x y} (operator : BinaryOperator) (hx : Plain allowed n x) (hy : Plain allowed n y) :
      Plain allowed n (.binary operator x y)
  | conditional {n c yes no} (hc : Plain allowed n c) (hyes : Plain allowed n yes)
      (hno : Plain allowed n no) : Plain allowed n (.conditional c yes no)
  | choice {n yes no} (c : Option Bool) (hyes : Plain allowed n yes) (hno : Plain allowed n no) :
      Plain allowed n (.choice c yes no)
  | condition {n x} (hx : Plain allowed n x) : Plain allowed n (.condition x)
  | text {n x} (hx : Plain allowed n x) : Plain allowed n (.text x)
  | call {n f arguments fallback} (hf : Plain allowed n f)
      (ha : ∀ a ∈ arguments, Plain allowed n a) (hl : allowed fallback) :
      Plain allowed n (.call f arguments fallback)
  | strictCall {n f arguments fallback} (hf : Plain allowed n f)
      (ha : ∀ a ∈ arguments, Plain allowed n a) (hl : allowed fallback) :
      Plain allowed n (.strictCall f arguments fallback)
  | count {n items} (hi : ∀ x ∈ items, Plain allowed n x) : Plain allowed n (.count items)
  | mapped {n x} (f : ScalarMap) (hx : Plain allowed n x) : Plain allowed n (.mapped f x)
  | applied {n body x} (hbody : Plain allowed 1 body) (hx : Plain allowed n x) :
      Plain allowed n (.applied body x)
  | appliedBoth {n body x y} (hbody : Plain allowed 2 body) (hx : Plain allowed n x)
      (hy : Plain allowed n y) : Plain allowed n (.appliedBoth body x y)
  | repeated {n body x} (times : Nat) (hbody : Plain allowed 1 body) (hx : Plain allowed n x) :
      Plain allowed n (.repeated times body x)
  | same {n x y} (hx : Plain allowed n x) (hy : Plain allowed n y) : Plain allowed n (.same x y)
  | kind {n x} (hx : Plain allowed n x) : Plain allowed n (.kind x)

namespace Setting
open Suspendable (IfReady)

variable {σ : Type} {S : Setting σ} {vs : List Value}

theorem draws_runAll {xs : List (Pass String σ (Suspendable Value))}
    (hx : ∀ x ∈ xs, S.DrawsLater vs x) :
    S.Draws vs (fun vs rs => ∀ r ∈ rs, r.IfReady S.Held vs) (Expr.runAll xs) := by
  induction xs generalizing vs with
  | nil => exact .pure (by simp)
  | cons x xs ih =>
    have hfirst := (hx x List.mem_cons_self).now
    refine hfirst.bind fun vs₁ r hvs₁ hr => ?_
    have hrest := ih fun y hy => (hx y (List.mem_cons_of_mem x hy)).mono hvs₁
    refine hrest.bind fun vs₂ rs hvs₂ hrs => .pure fun r' hr' => ?_
    rcases List.mem_cons.mp hr' with rfl | hr'
    · exact ifReady_mono hr hvs₂
    · exact hrs r' hr'

theorem draws_iterate {f : Value → Pass String σ (Suspendable Value)}
    (hf : ∀ vs' v, vs ⊆ vs' → S.Held vs' v → S.Draws vs' (IfReady S.Held) (f v)) (n : Nat)
    {x : Suspendable Value} (hx : x.IfReady S.Held vs) :
    S.Draws vs (IfReady S.Held) (Expr.iterate f n x) := by
  induction n generalizing vs x with
  | zero => exact .pure hx
  | succ n ih =>
    have hstep : S.Draws vs (IfReady S.Held) (x.andThen f) := by
      cases x with
      | suspended => exact .suspended
      | ready v => exact hf vs v (List.Subset.refl vs) (hx v rfl)
    refine hstep.bind fun vs₁ r hvs₁ hr => ih (fun vs' v hvs' => ?_) hr
    exact hf vs' v (List.Subset.trans hvs₁ hvs')

theorem draws_each {es : List Expr} {frame : Frame}
    (h : ∀ e ∈ es, S.DrawsLater vs (e.eval S.world S.call frame)) :
    ∀ x ∈ Expr.evalEach S.world S.call es frame, S.DrawsLater vs x := by
  intro x hx
  rw [Expr.evalEach_eq_map] at hx
  obtain ⟨e, he, rfl⟩ := List.mem_map.mp hx
  exact h e he

/-- The expression draws on its setting, given arguments that are held. -/
theorem draws_eval {n : Nat} {e : Expr} (he : e.Plain S.allowed n) {arguments : List Value}
    (hn : arguments.length = n) (ha : ∀ a ∈ arguments, S.Held vs a) :
    S.Draws vs (IfReady S.Held) (e.eval S.world S.call ⟨S.origin, S.context, arguments⟩) := by
  induction he generalizing vs arguments with
  | literal hl => exact (draws_realize hl).bind fun _ v _ hv => .ready hv
  | suspended => exact .suspended
  | @argument n index hi =>
    subst hn
    have hget : arguments[index]?.getD (.builtin .wrongArity) = arguments[index] := by simp [hi]
    simp only [Expr.eval, hget]
    exact .ready (ha _ (List.getElem_mem hi))
  | origin => exact .ready (.scalar _)
  | context => exact .ready .context
  | read property hx hl ih =>
    refine (ih hn ha).bind fun vs₁ v hvs₁ hv => ?_
    refine (draws_realize hl).bind fun vs₂ fallback hvs₂ hd => ?_
    exact draws_readProperty (ifReady_mono hv hvs₂) hd property
  | unary operator hx ih =>
    exact (ih hn ha).andThen fun vs₁ v hvs₁ hv => draws_unary operator hv
  | binary operator hx hy ihx ihy =>
    refine .andThenBoth (ihx hn ha) (fun vs' hvs => ihy hn fun a h => (ha a h).mono hvs) ?_
    exact fun vs' v w hvs hv hw => draws_binary operator hv hw
  | conditional hc hyes hno ihc ihyes ihno =>
    rw [Expr.eval_conditional]
    refine (ihc hn ha).bind fun vs₁ v hvs₁ hv => ?_
    refine (draws_conditionOf hv).andThen fun vs₂ r hvs₂ hr => ?_
    have ha₂ : ∀ a ∈ _, S.Held vs₂ a := fun a h => (ha a h).mono (List.Subset.trans hvs₁ hvs₂)
    rcases r with other | _ | _
    · exact .ready (hr other rfl)
    · exact ihno hn ha₂
    · exact ihyes hn ha₂
  | choice c hyes hno ihyes ihno =>
    rcases c with _ | _ | _
    · exact .suspended
    · exact ihno hn ha
    · exact ihyes hn ha
  | condition hx ih =>
    rw [Expr.eval_condition]
    refine (ih hn ha).bind fun vs₁ v hvs₁ hv => ?_
    refine (draws_conditionOf hv).map fun vs₂ r hvs₂ hr => ?_
    cases r with
    | ok b => exact .scalar _
    | error other => exact hr other rfl
  | text hx ih =>
    refine (ih hn ha).bind fun vs₁ v hvs₁ hv => ?_
    exact (draws_textOf hv).map fun _ s _ _ => .scalar _
  | call hf hargs hl ihf iha =>
    have hx := draws_each fun a hmem vs' hvs => iha a hmem hn fun b h => (ha b h).mono hvs
    refine (ihf hn ha).bind fun vs₁ f hvs₁ hf => ?_
    refine (draws_realize hl).bind fun vs₂ fallback hvs₂ hd => ?_
    exact draws_apply (ifReady_mono hf hvs₂) (fun x h => ((hx x h).mono hvs₁).mono hvs₂) hd
  | strictCall hf hargs hl ihf iha =>
    have hx := draws_each fun a hmem vs' hvs => iha a hmem hn fun b h => (ha b h).mono hvs
    refine (ihf hn ha).bind fun vs₁ f hvs₁ hf => ?_
    have hvalues := draws_runAll fun x h => (hx x h).mono hvs₁
    refine hvalues.bind fun vs₂ rs hvs₂ hrs => ?_
    refine (draws_realize hl).bind fun vs₃ fallback hvs₃ hd => ?_
    refine draws_apply (ifReady_mono (ifReady_mono hf hvs₂) hvs₃) (fun x hmem vs' hvs' => ?_) hd
    obtain ⟨r, hr, rfl⟩ := List.mem_map.mp hmem
    exact .pure (ifReady_mono (ifReady_mono (hrs r hr) hvs₃) hvs')
  | count hi ih =>
    have hx := draws_each fun a hmem vs' hvs => ih a hmem hn fun b h => (ha b h).mono hvs
    exact (draws_collect hx).map fun _ values _ _ => .scalar _
  | mapped f hx ih =>
    refine (ih hn ha).andThen fun vs₁ v hvs₁ hv => draws_liftUnary (fun vs' a => ?_) hv
    exact (draws_applied f.name [a]).bind fun _ _ _ _ => .pure trivial
  | applied hbody hx ihbody ihx =>
    refine (ihx hn ha).andThen fun vs₁ v hvs₁ hv => ihbody rfl ?_
    simpa using hv
  | appliedBoth hbody hx hy ihbody ihx ihy =>
    refine .andThenBoth (ihx hn ha) (fun vs' hvs => ihy hn fun a h => (ha a h).mono hvs) ?_
    intro vs' v w hvs hv hw
    exact ihbody rfl (by simpa using ⟨hv, hw⟩)
  | repeated times hbody hx ihbody ihx =>
    refine (ihx hn ha).bind fun vs₁ x hvs₁ hx => draws_iterate (fun vs' v hvs' hv => ?_) times hx
    exact ihbody rfl (by simpa using hv)
  | same hx hy ihx ihy =>
    refine .andThenBoth (ihx hn ha) (fun vs' hvs => ihy hn fun a h => (ha a h).mono hvs) ?_
    exact fun vs' v w hvs hv hw => .ready (.scalar _)
  | kind hx ih => exact (ih hn ha).map fun _ v _ _ => .scalar _

/-- A pass of an expression is a number of dealings with its host. The values that it brings into
them, and the one to which it comes, are scalars, the object it is evaluated against, the two errors
for a division by zero and for a function as an operand, and what the host has supplied in these
dealings before. No other builtin error comes up unless the host supplies it. Where the functions of
the host do not write into the journal themselves, all that the pass writes into it is about such
values. -/
theorem eval_provenance (S : Setting σ) (e : Expr) (he : e.Plain S.allowed 0)
    (p q : Progress String σ) (r : Suspendable Value)
    (h : e.eval S.world S.call ⟨S.origin, S.context, []⟩ p = some (r, q)) :
    ∃ ds vs, S.Deals [] p ds vs q ∧
      (∀ v ∈ vs, ∃ before d after vs₁ q₁, ds = before ++ d :: after ∧
        S.Deals [] p before vs₁ q₁ ∧ S.Supplies q₁ d v) ∧
      (∀ v, r = .ready v → S.Held vs v) ∧ (∀ d ∈ ds, ∀ v ∈ d.values, S.Held vs v) ∧
      (∀ kind, kind ≠ .divisionByZero → kind ≠ .functionOperand →
        (r = .ready (.builtin kind) ∨ ∃ d ∈ ds, .builtin kind ∈ d.values) →
        S.context = .error (.builtin kind) ∨ .builtin kind ∈ vs) ∧
      ((∀ f arguments p r q, S.call f S.origin arguments p = some (r, q) →
          q.journal = p.journal) →
        ∃ events, q.journal = p.journal ++ events ∧
          ∀ event ∈ events, ∀ v ∈ event.values, S.Held vs v) := by
  have heval : S.Draws [] (IfReady S.Held) (e.eval S.world S.call ⟨S.origin, S.context, []⟩) :=
    draws_eval he rfl (by simp)
  obtain ⟨ds, vs, hds, hr⟩ := heval p r q h
  have hheld : ∀ d ∈ ds, ∀ v ∈ d.values, S.Held vs v := fun d hd v hv => hds.held hd hv
  refine ⟨ds, vs, hds, ?_, hr, hheld, ?_, ?_⟩
  · intro v hv
    exact (hds.supplied hv).resolve_left (by simp)
  · intro kind hdivision hfunction happears
    have hkind : S.Held vs (.builtin kind) := by
      rcases happears with hresult | ⟨d, hd, hvalue⟩
      · exact hr _ hresult
      · exact hheld d hd _ hvalue
    obtain hzero | hoperand | hgiven := hkind.builtin
    · exact absurd hzero hdivision
    · exact absurd hoperand hfunction
    · exact hgiven
  · intro hquiet
    obtain ⟨events, hjournal, hevents⟩ := hds.journal hquiet
    refine ⟨events, hjournal, fun event hevent v hv => ?_⟩
    obtain ⟨d, hd, hvalues⟩ := hevents event hevent
    exact hheld d hd v (hvalues hv)

theorem eval_provenance_of_wrong_arity :
    let function : Value := .function ⟨"f", 0⟩
    let S : Setting Unit :=
      { world := ⟨fun _ _ _ s => (.pending ⟨.name "busy", 0⟩, s),
          fun _ _ s => (.pending ⟨.name "busy", 0⟩, s), fun s => (1, s)⟩
        call := fun _ _ _ => return .ready (.builtin .wrongArity)
        origin := ""
        context := .host ⟨"sheet", 0⟩
        allowed := fun l => l = .value function ∨ l = .value (.text "") }
    let formula : Expr := .call (.literal (.value function))
      [.unary .minus (.literal (.value function))] (.value (.text ""))
    let last : Progress String Unit := ⟨(), [],
      [.called ⟨"f", 0⟩ "" [.builtin .functionOperand],
        .returned ⟨"f", 0⟩ (.ready (.builtin .wrongArity))]⟩
    formula.eval S.world S.call ⟨S.origin, S.context, []⟩ ⟨(), [], []⟩ =
        some (.ready (.builtin .wrongArity), last) ∧
      ∃ ds vs, S.Deals [] ⟨(), [], []⟩ ds vs last ∧ .builtin .wrongArity ∈ vs := by
  intro function S formula last
  have hfunction : Expr.Plain S.allowed 0 (.literal (.value function)) := .literal (.inl rfl)
  have hplain : formula.Plain S.allowed 0 := by
    refine .call hfunction (fun a ha => ?_) (.inr rfl)
    obtain rfl := List.mem_singleton.mp ha
    exact .unary .minus hfunction
  have heval : formula.eval S.world S.call ⟨S.origin, S.context, []⟩ ⟨(), [], []⟩ =
      some (.ready (.builtin .wrongArity), last) := rfl
  obtain ⟨ds, vs, hds, -, -, -, hbuiltin, -⟩ :=
    eval_provenance S formula hplain ⟨(), [], []⟩ last _ heval
  have hnone : S.context ≠ .error (.builtin .wrongArity) := by simp [S]
  have hsupplied := hbuiltin .wrongArity (by simp) (by simp) (.inl rfl)
  exact ⟨heval, ds, vs, hds, hsupplied.resolve_left hnone⟩

end Setting

end ResumableFormulas
