/-! # Suspendable values

A value that is ready, or the mark that it cannot be had yet. The operations come in a form with
effects, because what is done with a ready value may itself read from the host: a suspended value
never has its continuation run.
-/
namespace ResumableFormulas

/-- A value, unless its computation had to stop. -/
inductive Suspendable (α : Type) where
  | ready (a : α)
  | suspended
deriving DecidableEq, Repr

namespace Suspendable

variable {α β γ : Type} {m : Type → Type} [Monad m]

def isReady : Suspendable α → Bool
  | ready _ => true
  | suspended => false

def isSuspended (x : Suspendable α) : Bool := !x.isReady

def toOption : Suspendable α → Option α
  | ready a => some a
  | suspended => none

def map (f : α → β) : Suspendable α → Suspendable β
  | ready a => ready (f a)
  | suspended => suspended

/-- Applies a function with effects to a ready value. -/
def mapM (x : Suspendable α) (f : α → m β) : m (Suspendable β) :=
  match x with
  | ready a => do return ready (← f a)
  | suspended => return suspended

/-- Goes on with a ready value. -/
def andThen (x : Suspendable α) (f : α → m (Suspendable β)) : m (Suspendable β) :=
  match x with
  | ready a => f a
  | suspended => return suspended

/-- Goes on with two values once both are ready. -/
def andThenBoth (x : Suspendable α) (y : Suspendable β) (f : α → β → m (Suspendable γ)) :
    m (Suspendable γ) :=
  match x, y with
  | ready a, ready b => f a b
  | _, _ => return suspended

/-- Runs computations in order and collects their values. The first suspended one ends the scan: the
computations after it are not run. -/
def collect : List (m (Suspendable α)) → m (Suspendable (List α))
  | [] => return ready []
  | x :: xs => do
    match ← x with
    | ready a => return (← collect xs).map (a :: ·)
    | suspended => return suspended

@[simp] theorem map_ready (f : α → β) (a : α) : (ready a).map f = ready (f a) := rfl

@[simp] theorem map_suspended (f : α → β) : (suspended : Suspendable α).map f = suspended := rfl

@[simp] theorem andThen_ready (a : α) (f : α → m (Suspendable β)) : (ready a).andThen f = f a := rfl

@[simp] theorem andThen_suspended (f : α → m (Suspendable β)) :
    (suspended : Suspendable α).andThen f = pure suspended := rfl

@[simp] theorem andThenBoth_ready (a : α) (b : β) (f : α → β → m (Suspendable γ)) :
    (ready a).andThenBoth (ready b) f = f a b := rfl

@[simp] theorem andThenBoth_suspended_left (y : Suspendable β) (f : α → β → m (Suspendable γ)) :
    suspended.andThenBoth y f = pure suspended := rfl

@[simp] theorem andThenBoth_suspended_right (x : Suspendable α) (f : α → β → m (Suspendable γ)) :
    x.andThenBoth suspended f = pure suspended := by cases x <;> rfl

theorem mapM_eq_andThen (x : Suspendable α) (f : α → m β) :
    x.mapM f = x.andThen fun a => do return ready (← f a) := by
  cases x <;> rfl

@[simp] theorem collect_nil : collect ([] : List (m (Suspendable α))) = pure (ready []) := rfl

end Suspendable

end ResumableFormulas
