import ResumableFormulas.Proofs.Expression.Composition
import ResumableFormulas.Proofs.Pass.Journal

/-! # The readings behind the requests

What a pass writes into its journal is a transcript of its dealings with the host: every answer in
it is the one that the host gave, in the state to which the readings before it had led, and every
reading and every call bears the origin of the evaluation. The requests that a pass adds are the
pending answers of its transcript. Evaluations that share one pass each have a transcript of their
own, and their requests come one after another.
-/
namespace ResumableFormulas
open Pass

/-- An event that goes by without the host being read: the reading of an error, which answers for
itself, a call and its return, and an application. -/
inductive Event.Internal (origin : String) : Event String → Prop where
  | read (e : ErrorObject) (property : Property) :
      Internal origin (.read (.error e) property origin (.value (e.read property)))
  | called (function : Handle) (arguments : List Value) :
      Internal origin (.called function origin arguments)
  | returned (function : Handle) (result : Suspendable Value) :
      Internal origin (.returned function result)
  | applied (operation : String) (operands : List Scalar) :
      Internal origin (.applied operation operands)

section

variable {σ : Type}

/-- The events between two states of a host, all of them at one origin. The host changes when it is
read and when it hands out a serial number, and in no other way. -/
inductive Transcript (world : World σ) (origin : String) (s : σ) :
    List (Event String) → σ → Prop where
  | empty : Transcript world origin s [] s
  | read {events : List (Event String)} {s' : σ} (h : Transcript world origin s events s')
      (handle : Handle) (property : Property) : Transcript world origin s
        (events ++ [.read (.host handle) property origin
          (world.read handle property origin s').1])
        (world.read handle property origin s').2
  | minted {events : List (Event String)} {s' : σ} (h : Transcript world origin s events s') :
      Transcript world origin s events (world.mint s').2
  | internal {events : List (Event String)} {s' : σ} (h : Transcript world origin s events s')
      {e : Event String} (he : e.Internal origin) : Transcript world origin s (events ++ [e]) s'

/-- An evaluation that shares a pass with others: how the host has changed since the one before it,
the expression, what it is evaluated against, and how deep calls may be nested. -/
structure Share (σ : Type) where
  meanwhile : σ → σ
  expression : Expr
  frame : Frame
  depth : Nat

/-- The transcripts of evaluations one after another. -/
inductive Transcripts (world : World σ) : List (Share σ) → σ → List (Event String) → σ → Prop where
  | nil (s : σ) : Transcripts world [] s [] s
  | cons {share : Share σ} {shares : List (Share σ)} {s s₁ s₂ : σ}
      {events events' : List (Event String)}
      (h : Transcript world share.frame.origin (share.meanwhile s) events s₁)
      (hs : Transcripts world shares s₁ events' s₂) :
      Transcripts world (share :: shares) s (events ++ events') s₂

variable {world : World σ} {origin : String}

theorem Transcript.append {s s' s'' : σ} {events events' : List (Event String)}
    (h : Transcript world origin s events s') (h' : Transcript world origin s' events' s'') :
    Transcript world origin s (events ++ events') s'' := by
  induction h' with
  | empty => rwa [List.append_nil]
  | read _ handle property ih =>
    rw [← List.append_assoc]
    exact ih.read handle property
  | minted _ ih => exact ih.minted
  | internal _ he ih =>
    rw [← List.append_assoc]
    exact ih.internal he

theorem Transcript.of_internal {e : Event String} (he : e.Internal origin) (s : σ) :
    Transcript world origin s [e] s := by
  have h : Transcript world origin s [] s := .empty
  exact h.internal he

theorem Transcript.of_read (handle : Handle) (property : Property) (s : σ) :
    Transcript world origin s
      [.read (.host handle) property origin (world.read handle property origin s).1]
      (world.read handle property origin s).2 := by
  have h : Transcript world origin s [] s := .empty
  exact h.read handle property

theorem Transcript.continues (world : World σ) (origin : String) :
    Continues origin (Transcript world origin) where
  empty _ := .empty
  append := .append
  called function arguments := .of_internal (.called function arguments)
  returned function result := .of_internal (.returned function result)
  applied operation operands := .of_internal (.applied operation operands)

end

namespace World

variable {σ : Type}

theorem documented (world : World σ) (origin : String) :
    Correspond (Documented.closed (Transcript.continues world origin)).correspondence world world
      fun _ => True where
  ask call _ target property := by
    cases target with
    | error e => exact .ask (Transcript.of_internal (.read e property))
    | host handle => exact .ask (Transcript.of_read handle property)
  literal l _ := by
    have hl : Documented (Transcript world origin) (Expr.realize world l) := by
      refine .onHost fun s => ?_
      cases l with
      | value v => exact .empty
      | newObject name => exact .minted .empty
      | newFunction name => exact .minted .empty
      | newError message => exact .minted .empty
    exact hl.bind .append fun v => .pure (fun _ => .empty) _

/-- What an evaluation contributes to the pass that it shares. -/
def perform (world : World σ) (functions : Handle → Option FunctionDefinition) (share : Share σ) :
    Pass String σ (Suspendable Value) := do
  Pass.onHost fun s => ((), share.meanwhile s)
  share.expression.eval world (world.caller functions share.frame.context share.depth) share.frame

section

variable {world : World σ} {functions : Handle → Option FunctionDefinition}
  (hf : ∀ f d, functions f = some d → d.body.Built (fun _ => True) True)
include hf

theorem documented_eval {e : Expr} (he : e.Built (fun _ => True) True) (depth : Nat)
    (frame : Frame) : Documented (Transcript world frame.origin)
      (e.eval world (world.caller functions frame.context depth) frame) :=
  (world.documented frame.origin).eval_closed hf he depth frame.context frame.arguments

theorem perform_transcript {share : Share σ} (he : share.expression.Built (fun _ => True) True)
    {p q : Progress String σ} {r : Suspendable Value}
    (h : world.perform functions share p = some (r, q)) :
    ∃ events, q.journal = p.journal ++ events ∧
      q.pending = p.pending ++ events.flatMap Event.requests ∧
      Transcript world share.frame.origin (share.meanwhile p.host) events q.host := by
  obtain ⟨_, p₁, hchange, heval⟩ := bind_eq_some_iff.mp h
  simp only [onHost_apply, Option.some.injEq, Prod.mk.injEq] at hchange
  obtain ⟨-, rfl⟩ := hchange
  exact documented_eval hf he share.depth share.frame _ r q heval

end

/-- Evaluations that share a pass add to its requests the pending answers that the host gave to
readings meanwhile, in the order in which these were made, one for each, and no others. All
readings and calls of an evaluation were made from its origin. -/
theorem pending_eq_answered (world : World σ) (functions : Handle → Option FunctionDefinition)
    (hf : ∀ f d, functions f = some d → d.body.Built (fun _ => True) True)
    (shares : List (Share σ))
    (he : ∀ share ∈ shares, share.expression.Built (fun _ => True) True)
    (p q : Progress String σ) (values : List (Suspendable Value))
    (h : Expr.runAll (shares.map (world.perform functions)) p = some (values, q)) :
    ∃ events, Transcripts world shares p.host events q.host ∧
      q.journal = p.journal ++ events ∧
      q.pending = p.pending ++ events.flatMap Event.requests := by
  induction shares generalizing p values with
  | nil =>
    simp only [List.map_nil, Expr.runAll, pure_apply, Option.some.injEq, Prod.mk.injEq] at h
    obtain ⟨-, rfl⟩ := h
    exact ⟨[], .nil p.host, by simp, by simp⟩
  | cons share shares ih =>
    obtain ⟨r, p₁, hfirst, htail⟩ := bind_eq_some_iff.mp h
    obtain ⟨rest, p₂, hrest, hend⟩ := bind_eq_some_iff.mp htail
    simp only [pure_apply, Option.some.injEq, Prod.mk.injEq] at hend
    obtain ⟨-, rfl⟩ := hend
    obtain ⟨events, hj, hp, htranscript⟩ :=
      perform_transcript hf (he share List.mem_cons_self) hfirst
    have hothers : ∀ other ∈ shares, other.expression.Built (fun _ => True) True :=
      fun other hother => he other (List.mem_cons_of_mem share hother)
    obtain ⟨events', htranscripts, hj', hp'⟩ := ih hothers p₁ rest hrest
    refine ⟨events ++ events', .cons htranscript htranscripts, ?_, ?_⟩
    · rw [hj', hj, List.append_assoc]
    · rw [hp', hp, List.flatMap_append, List.append_assoc]

theorem pending_eq_answered_of_counting :
    let world : World Nat := ⟨fun handle _ _ n => (.pending ⟨.name handle.name, n⟩, n + 1),
      fun _ _ n => (.value (.text ""), n), fun n => (n, n + 1)⟩
    let sheet : Object := .host ⟨"sheet", 0⟩
    let shares : List (Share Nat) := [⟨id, .binary .add .context .context, ⟨"A1", sheet, []⟩, 0⟩,
      ⟨fun n => n + 10, .call .context [.suspended] (.value (.text "")), ⟨"B2", sheet, []⟩, 0⟩]
    ∃ values q events, Expr.runAll (shares.map (world.perform fun _ => none))
        ⟨0, [⟨.number 7, 0⟩], []⟩ = some (values, q) ∧
      Transcripts world shares 0 events q.host ∧
      q.pending = ⟨.number 7, 0⟩ :: events.flatMap Event.requests ∧
      q.pending = [⟨.number 7, 0⟩, ⟨.name "sheet", 0⟩, ⟨.name "sheet", 1⟩,
        ⟨.name "sheet", 12⟩] := by
  intro world sheet shares
  have hf : ∀ (f : Handle) (d : FunctionDefinition),
      (fun _ => none : Handle → Option FunctionDefinition) f = some d →
      d.body.Built (fun _ => True) True := by
    intro f d hd
    contradiction
  have he : ∀ share ∈ shares, share.expression.Built (fun _ => True) True := by
    intro share hshare
    rcases List.mem_cons.mp hshare with rfl | hshare
    · exact .binary _ .context .context
    · obtain rfl := List.mem_singleton.mp hshare
      refine .call .context ?_ trivial
      intro a ha
      obtain rfl := List.mem_singleton.mp ha
      exact .suspended trivial
  let first : Progress String Nat :=
    ⟨2, [⟨.number 7, 0⟩, ⟨.name "sheet", 0⟩, ⟨.name "sheet", 1⟩],
      [.read sheet .asScalar "A1" (.pending ⟨.name "sheet", 0⟩),
        .read sheet .asScalar "A1" (.pending ⟨.name "sheet", 1⟩)]⟩
  let last : Progress String Nat :=
    ⟨13, first.pending ++ [⟨.name "sheet", 12⟩],
      first.journal ++ [.read sheet .asScalar "B2" (.pending ⟨.name "sheet", 12⟩)]⟩
  -- Each share by itself: both of them in a row are too much to evaluate at once.
  have hfirst : world.perform (fun _ => none) shares[0] ⟨0, [⟨.number 7, 0⟩], []⟩ =
      some (.suspended, first) := rfl
  have hsecond : world.perform (fun _ => none) shares[1] first = some (.suspended, last) := rfl
  have hrest : Expr.runAll [world.perform (fun _ => none) shares[1]] first =
      some ([.suspended], last) := by
    rw [Expr.runAll, bind_of_eq_some hsecond]
    rfl
  have hrun : Expr.runAll (shares.map (world.perform fun _ => none))
      ⟨0, [⟨.number 7, 0⟩], []⟩ = some ([.suspended, .suspended], last) := by
    change Expr.runAll [world.perform _ shares[0], world.perform _ shares[1]] _ = _
    rw [Expr.runAll, bind_of_eq_some hfirst, bind_of_eq_some hrest]
    rfl
  obtain ⟨events, htranscripts, -, hpending⟩ :=
    pending_eq_answered world (fun _ => none) hf shares he _ _ _ hrun
  exact ⟨_, _, events, hrun, htranscripts, hpending, rfl⟩

end World

end ResumableFormulas
