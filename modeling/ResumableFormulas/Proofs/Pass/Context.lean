import ResumableFormulas.Proofs.Pass.Journal

/-! # Contexts of computations

Operations of a pass around a hole, down to which they are nested. If the computation in the hole is
suspended then so is the whole: no operation on the way back applies what its caller gave it, and
none of them reads anything. What is still done is to run the computations beside the hole that are
due after it; and an application whose arguments were all run beforehand looks at the value in
function position before it looks at them.
-/
namespace ResumableFormulas.Pass

variable {O σ α β γ : Type}

theorem bind_congr_at {x x' : Pass O σ α} {p p' : Progress O σ} (h : x p = x' p')
    (f : α → Pass O σ β) : (x >>= f) p = (x' >>= f) p' := by
  change (x p).bind (fun s => f s.1 s.2) = (x' p').bind (fun s => f s.1 s.2)
  rw [h]

theorem discard_bind (x : Pass O σ α) (f : Unit → Pass O σ β) :
    (discard x >>= f) = x >>= fun _ => f () := by
  simp [Functor.discard, map_const]

theorem discard_eq_some {x : Pass O σ α} {p q : Progress O σ} {a : α} (h : x p = some (a, q)) :
    discard x p = some ((), q) := by
  rw [← bind_pure (discard x), discard_bind, bind_of_eq_some h]
  rfl

/-- A computation that comes to nothing but results as described. -/
def Results (post : α → Prop) (x : Pass O σ α) : Prop := ∀ p a q, x p = some (a, q) → post a

theorem Results.pure {post : α → Prop} {a : α} (h : post a) :
    Results post (pure a : Pass O σ α) := by
  intro p b q hb
  cases hb
  exact h

theorem Results.bind {post : β → Prop} {x : Pass O σ α} {f : α → Pass O σ β}
    (hf : ∀ a, Results post (f a)) : Results post (x >>= f) := by
  intro p b q h
  obtain ⟨a, p₁, -, h⟩ := bind_eq_some_iff.mp h
  exact hf a p₁ b q h

theorem collect_cons (x : Pass O σ (Suspendable α)) (xs : List (Pass O σ (Suspendable α))) :
    Suspendable.collect (x :: xs) = (do
      (← x).andThen fun a => do return (← Suspendable.collect xs).map (a :: ·)) := rfl

theorem collect_append (xs ys : List (Pass O σ (Suspendable α))) :
    Suspendable.collect (xs ++ ys) = (do
      (← Suspendable.collect xs).andThen fun as => do
        return (← Suspendable.collect ys).map (as ++ ·)) := by
  induction xs with
  | nil =>
    have hid : Suspendable.map (fun bs : List α => bs) = id := by
      funext r
      cases r <;> rfl
    simp only [List.nil_append, Suspendable.collect_nil, pure_bind, Suspendable.andThen_ready, hid,
      id, bind_pure]
  | cons x xs ih =>
    simp only [List.cons_append, collect_cons, bind_assoc, ih]
    congr 1
    funext a
    cases a with
    | suspended => rfl
    | ready a =>
      simp only [Suspendable.andThen_ready, bind_assoc, pure_bind]
      congr 1
      funext as
      cases as with
      | suspended => rfl
      | ready as =>
        simp only [Suspendable.andThen_ready, Suspendable.map_ready, bind_assoc, pure_bind]
        congr 1
        funext bs
        cases bs <;> rfl

/-- Values are not collected once one of them is suspended. -/
theorem collect_suspended {values : List (Suspendable α)} (h : .suspended ∈ values) :
    Suspendable.collect (values.map pure) =
      (pure .suspended : Pass O σ (Suspendable (List α))) := by
  induction values with
  | nil => cases h
  | cons v values ih =>
    cases v with
    | suspended => rfl
    | ready a =>
      have hrest := ih ((List.mem_cons.mp h).resolve_left (by simp))
      rw [List.map_cons, Suspendable.collect, hrest]
      rfl

/-- The value of what has to be ready. -/
def demand : Suspendable α → Pass O σ α
  | .ready a => return a
  | .suspended => failure

theorem bind_demand_eq_some {x : Pass O σ (Suspendable α)} {f : α → Pass O σ β}
    {p : Progress O σ} {r : β × Progress O σ} (h : (x >>= fun v => demand v >>= f) p = some r) :
    ∃ a p₁, x p = some (.ready a, p₁) ∧ f a p₁ = some r := by
  obtain ⟨v, p₁, hx, h⟩ := bind_eq_some_iff.mp h
  cases v with
  | suspended => cases h
  | ready a => exact ⟨a, p₁, hx, h⟩

/-- An operation around a hole: what its caller gives it, and the computations beside the hole. -/
inductive Layer (O σ : Type) : Type → Type → Type 1 where
  | read (property : Property) (fallback : Value) : Layer O σ Value Value
  | operand {α β : Type} (operator : α → Pass O σ (Suspendable β)) : Layer O σ α β
  | left {α β γ : Type} (y : Pass O σ (Suspendable β))
      (operator : α → β → Pass O σ (Suspendable γ)) : Layer O σ α γ
  | right {α β γ : Type} (x : Pass O σ (Suspendable α))
      (operator : α → β → Pass O σ (Suspendable γ)) : Layer O σ β γ
  | condition : Layer O σ Value (Except Value Bool)
  | choice {α : Type} (branch : Bool → Pass O σ (Suspendable α)) : Layer O σ Bool α
  | branch {α : Type} (condition : Pass O σ (Suspendable Bool)) (selected : Bool)
      (other : Pass O σ (Suspendable α)) : Layer O σ α α
  | text : Layer O σ Value String
  | target (arguments : List (Pass O σ (Suspendable Value))) (fallback : Value) :
      Layer O σ Value Value
  | argument (f : Pass O σ (Suspendable Value)) (before after : List (Pass O σ (Suspendable Value)))
      (fallback : Value) : Layer O σ Value Value
  /-- The value in function position where all the arguments are run beforehand. -/
  | strictTarget (arguments : List (Pass O σ (Suspendable Value))) (fallback : Value) :
      Layer O σ Value Value
  /-- An argument where all of them are run beforehand. -/
  | strictArgument (f : Pass O σ (Suspendable Value))
      (before after : List (Pass O σ (Suspendable Value))) (fallback : Value) :
      Layer O σ Value Value

/-- What may be left to do when the computation in a hole is suspended. -/
inductive Chore (O σ : Type) where
  /-- To run a computation beside the hole, whose value is dropped. -/
  | run (x : Pass O σ Unit)
  /-- To look at the value in function position. -/
  | coerce (f : Suspendable Value)

def Chore.perform (host : Host O σ) (origin : O) : Chore O σ → Pass O σ Unit
  | run x => x
  | coerce f => discard (f.andThen (callee host origin))

def Chore.sibling? : Chore O σ → Option (Pass O σ Unit)
  | run x => some x
  | coerce _ => none

def Chore.isCoercion : Chore O σ → Bool
  | run _ => false
  | coerce _ => true

namespace Layer

variable (host : Host O σ) (origin : O)

/-- The operation with a computation in its hole. -/
def plug : Layer O σ α β → Pass O σ (Suspendable α) → Pass O σ (Suspendable β)
  | read property fallback, x => do readProperty host origin (← x) property fallback
  | operand f, x => do (← x).andThen f
  | left y f, x => do (← x).andThenBoth (← y) f
  | right y f, x => do (← y).andThenBoth (← x) f
  | condition, x => do conditionOf host origin (← x)
  | choice f, x => do choose (← x) f
  | branch c selected other, x => do choose (← c) fun b => if b = selected then x else other
  | text, x => do textOf host origin (← x)
  | target xs fallback, x => do apply host origin (← x) xs fallback
  | argument f xs ys fallback, x => do apply host origin (← f) (xs ++ x :: ys) fallback
  | strictTarget xs fallback, x => do
    let f ← x
    let values ← xs.mapM id
    apply host origin f (values.map pure) fallback
  | strictArgument f xs ys fallback, x => do
    let f ← f
    let values ← (xs ++ x :: ys).mapM id
    apply host origin f (values.map pure) fallback

/-- What is done before the computation in the hole is run, and what is left to do if that is
suspended. There is no outcome if the hole is not reached. -/
def approach : Layer O σ α β → Pass O σ (List (Chore O σ))
  | read _ _ | operand _ | condition | choice _ | text | target _ _ => return []
  | left y _ => return [.run (discard y)]
  | right y _ => do
    let _ ← y
    return []
  | branch c selected _ => do
    let b ← demand (← c)
    if b = selected then return [] else failure
  | argument f xs _ _ => do
    let v ← demand (← f)
    let _ ← demand (← callee host origin v)
    let _ ← demand (← Suspendable.collect xs)
    return []
  | strictTarget xs _ => return xs.map fun x => .run (discard x)
  | strictArgument f xs ys _ => do
    let f ← f
    let _ ← xs.mapM id
    return (ys.map fun y => .run (discard y)) ++ [.coerce f]

/-- The computations beside the hole that are due after it. -/
def due : Layer O σ α β → List (Pass O σ Unit)
  | left y _ => [discard y]
  | strictTarget xs _ => xs.map discard
  | strictArgument _ _ ys _ => ys.map discard
  | _ => []

def strictArguments : Layer O σ α β → Nat
  | strictArgument _ _ _ _ => 1
  | _ => 0

/-- The operation with everything that is out of reach of a suspended hole made to fail: what its
caller gives it to apply, the branch that is not selected and the arguments not yet run. -/
def disarmed : Layer O σ α β → Layer O σ α β
  | read property fallback => read property fallback
  | operand _ => operand fun _ => failure
  | left y _ => left y fun _ _ => failure
  | right x _ => right x fun _ _ => failure
  | condition => condition
  | choice _ => choice fun _ => failure
  | branch c selected _ => branch c selected failure
  | text => text
  | target xs fallback => target (xs.map fun _ => failure) fallback
  | argument f xs ys fallback => argument f xs (ys.map fun _ => failure) fallback
  | strictTarget xs fallback => strictTarget xs fallback
  | strictArgument f xs ys fallback => strictArgument f xs ys fallback

end Layer

/-- The chores that belong to an operation: its computations that are due, in order, and a coercion
for an argument that was run beforehand. -/
def Chore.Within (due : List (Pass O σ Unit)) (strict : Nat) (chores : List (Chore O σ)) : Prop :=
  chores.filterMap sibling? = due ∧ chores.countP isCoercion = strict

theorem Chore.within_run (xs : List (Pass O σ α)) :
    Within (xs.map discard) 0 (xs.map fun x => .run (discard x)) := by
  constructor
  · rw [List.filterMap_map]
    exact congrFun (List.filterMap_eq_map' (f := discard)) xs
  · exact List.countP_eq_zero.mpr (by simp [isCoercion])

theorem Chore.Within.append {due due' : List (Pass O σ Unit)} {strict strict' : Nat}
    {chores chores' : List (Chore O σ)} (h : Within due strict chores)
    (h' : Within due' strict' chores') :
    Within (due ++ due') (strict + strict') (chores ++ chores') := by
  obtain ⟨rfl, rfl⟩ := h
  obtain ⟨rfl, rfl⟩ := h'
  exact ⟨List.filterMap_append, List.countP_append⟩

theorem Layer.approach_within (host : Host O σ) (origin : O) (L : Layer O σ α β) :
    Results (Chore.Within L.due L.strictArguments) (L.approach host origin) := by
  cases L with
  | left y f => exact .pure (Chore.within_run [y])
  | right x f => exact .bind fun _ => .pure ⟨rfl, rfl⟩
  | branch c selected other =>
    refine .bind fun r => .bind fun b => ?_
    by_cases h : b = selected
    · rw [if_pos h]
      exact .pure ⟨rfl, rfl⟩
    · rw [if_neg h]
      intro p a q hq
      cases hq
  | argument f xs ys fallback =>
    exact .bind fun _ => .bind fun _ => .bind fun _ => .bind fun _ => .bind fun _ => .bind fun _ =>
      .pure ⟨rfl, rfl⟩
  | strictTarget xs fallback => exact .pure (Chore.within_run xs)
  | strictArgument f xs ys fallback =>
    refine .bind fun v => .bind fun _ => .pure ?_
    have hcoerce : Chore.Within ([] : List (Pass O σ Unit)) 1 [.coerce v] := ⟨rfl, rfl⟩
    simpa [due, strictArguments] using (Chore.within_run ys).append hcoerce
  | _ => exact .pure ⟨rfl, rfl⟩

/-- The host whose functions cannot be called. -/
def mute (host : Host O σ) : Host O σ := ⟨host.read, fun _ _ _ => failure⟩

theorem Layer.approach_disarmed (host : Host O σ) (origin : O) (L : Layer O σ α β) :
    L.disarmed.approach (mute host) origin = L.approach host origin := by
  cases L <;> rfl

theorem apply_suspended (host : Host O σ) (origin : O)
    (arguments : List (Pass O σ (Suspendable Value))) (fallback : Value) :
    apply host origin .suspended arguments fallback = pure .suspended := by
  rw [apply_eq]
  rfl

/-- Suspended, once the chores are done. -/
def suspendAfter (host : Host O σ) (origin : O) (chores : List (Chore O σ)) :
    Pass O σ (Suspendable α) := do
  forM chores (Chore.perform host origin)
  return .suspended

theorem bind_suspendAfter (host : Host O σ) (origin : O) (y : Pass O σ α)
    (chores : List (Chore O σ)) :
    (y >>= fun _ => suspendAfter host origin chores : Pass O σ (Suspendable β)) =
      suspendAfter host origin (.run (discard y) :: chores) := by
  rw [suspendAfter, suspendAfter, List.forM_cons, bind_assoc]
  exact (discard_bind y fun _ => suspendAfter host origin chores).symm

theorem mapM_suspendAfter (host : Host O σ) (origin : O) (ys : List (Pass O σ α))
    (chores : List (Chore O σ)) :
    (ys.mapM id >>= fun _ => suspendAfter host origin chores : Pass O σ (Suspendable β)) =
      suspendAfter host origin ((ys.map fun y => .run (discard y)) ++ chores) := by
  induction ys with
  | nil => rfl
  | cons y ys ih =>
    rw [List.map_cons, List.cons_append, ← bind_suspendAfter, ← ih, List.mapM_cons]
    simp only [bind_assoc, pure_bind, id]

theorem suspendAfter_bind (host : Host O σ) (origin : O) (chores chores' : List (Chore O σ))
    {f : Suspendable α → Pass O σ (Suspendable β)}
    (hf : f .suspended = suspendAfter host origin chores') :
    (suspendAfter host origin chores >>= f) = suspendAfter host origin (chores ++ chores') := by
  rw [suspendAfter, suspendAfter, List.forM_append, bind_assoc, bind_assoc, pure_bind, hf,
    suspendAfter]

theorem apply_values_suspended (host : Host O σ) (origin : O) (f : Suspendable Value)
    {values : List (Suspendable Value)} (h : .suspended ∈ values) (fallback : Value) :
    apply host origin f (values.map pure) fallback = suspendAfter host origin [.coerce f] := by
  rw [apply_eq, collect_suspended h]
  refine Eq.trans ?_ (bind_suspendAfter host origin (f.andThen (callee host origin)) [])
  congr 1
  funext v
  cases v <;> rfl

/-- Once the value in function position and the arguments before the hole are there, the application
waits for the hole only. -/
theorem apply_argument (host : Host O σ) (origin : O) {v t : Value} {p p' p₁ : Progress O σ}
    {xs : List (Pass O σ (Suspendable Value))} {values : List Value}
    (hcallee : callee host origin v p = some (.ready t, p'))
    (hcollect : Suspendable.collect xs p' = some (.ready values, p₁))
    (x : Pass O σ (Suspendable Value)) (ys : List (Pass O σ (Suspendable Value)))
    (fallback : Value) :
    apply host origin (.ready v) (xs ++ x :: ys) fallback p = (do
      let rest ← Suspendable.collect (x :: ys)
      (rest.map (values ++ ·)).andThen (applyTo host origin fallback t)) p₁ := by
  rw [apply_eq, Suspendable.andThen_ready, bind_of_eq_some hcallee, Suspendable.andThen_ready,
    collect_append, bind_assoc, bind_of_eq_some hcollect]
  simp only [Suspendable.andThen_ready, bind_assoc, pure_bind]

/-- A formula with a hole that runs from `p` to `p₁` before the hole. From there on it goes by what
the hole comes to, and a suspended hole leaves it nothing but chores. -/
def Reaches (host : Host O σ) (origin : O)
    (F : Pass O σ (Suspendable α) → Pass O σ (Suspendable β)) (p p₁ : Progress O σ)
    (chores : List (Chore O σ)) : Prop :=
  ∃ f : Suspendable α → Pass O σ (Suspendable β),
    (∀ x, F x p = (x >>= f) p₁) ∧ f .suspended = suspendAfter host origin chores

theorem Reaches.suspended {host : Host O σ} {origin : O}
    {F : Pass O σ (Suspendable α) → Pass O σ (Suspendable β)} {p p₁ p₂ : Progress O σ}
    {chores : List (Chore O σ)} {x : Pass O σ (Suspendable α)}
    (h : Reaches host origin F p p₁ chores) (hx : x p₁ = some (.suspended, p₂)) :
    F x p = suspendAfter host origin chores p₂ := by
  obtain ⟨f, hF, hf⟩ := h
  rw [hF, bind_of_eq_some hx, hf]

/-- The chores of the inner formula come first. -/
theorem Reaches.comp {host : Host O σ} {origin : O}
    {F : Pass O σ (Suspendable α) → Pass O σ (Suspendable β)}
    {G : Pass O σ (Suspendable β) → Pass O σ (Suspendable γ)} {p p' p₁ : Progress O σ}
    {outer inner : List (Chore O σ)} (hG : Reaches host origin G p p' outer)
    (hF : Reaches host origin F p' p₁ inner) :
    Reaches host origin (fun x => G (F x)) p p₁ (inner ++ outer) := by
  obtain ⟨g, hG, hg⟩ := hG
  obtain ⟨f, hF, hf⟩ := hF
  refine ⟨fun a => f a >>= g, fun x => ?_, ?_⟩
  · calc G (F x) p = (F x >>= g) p' := hG (F x)
      _ = ((x >>= f) >>= g) p₁ := bind_congr_at (hF x) g
      _ = (x >>= fun a => f a >>= g) p₁ := by rw [bind_assoc]
  · calc (f .suspended >>= g) = (suspendAfter host origin inner >>= g) := by rw [hf]
      _ = suspendAfter host origin (inner ++ outer) := suspendAfter_bind host origin inner outer hg

theorem Layer.plug_reaches (host : Host O σ) (origin : O) (L : Layer O σ α β) {p p₁ : Progress O σ}
    {chores : List (Chore O σ)} (h : L.approach host origin p = some (chores, p₁)) :
    Reaches host origin (L.plug host origin) p p₁ chores := by
  cases L with
  | read _ _ | operand _ | condition | choice _ | text =>
    cases h
    exact ⟨_, fun x => rfl, rfl⟩
  | left y f =>
    cases h
    exact ⟨_, fun x => rfl, bind_suspendAfter host origin y []⟩
  | right y f =>
    obtain ⟨a, _, hy, h⟩ := bind_eq_some_iff.mp h
    cases h
    exact ⟨fun b => a.andThenBoth b f, fun x => bind_of_eq_some hy,
      Suspendable.andThenBoth_suspended_right a f⟩
  | branch c selected other =>
    obtain ⟨b, _, hc, h⟩ := bind_demand_eq_some h
    by_cases hselected : b = selected
    · rw [if_pos hselected] at h
      cases h
      refine ⟨pure, fun x => ?_, rfl⟩
      rw [plug, bind_of_eq_some hc, bind_pure, choose, Suspendable.andThen_ready, if_pos hselected]
    · rw [if_neg hselected] at h
      cases h
  | target xs fallback =>
    cases h
    exact ⟨_, fun x => rfl, apply_suspended host origin xs fallback⟩
  | argument g xs ys fallback =>
    obtain ⟨v, _, hg, h⟩ := bind_demand_eq_some h
    obtain ⟨t, _, hcallee, h⟩ := bind_demand_eq_some h
    obtain ⟨values, _, hxs, h⟩ := bind_demand_eq_some h
    cases h
    refine ⟨fun a => do
      let rest ← a.andThen fun a => do return (← Suspendable.collect ys).map (a :: ·)
      (rest.map (values ++ ·)).andThen (applyTo host origin fallback t), fun x => ?_, rfl⟩
    rw [plug, bind_of_eq_some hg, apply_argument host origin hcallee hxs, collect_cons, bind_assoc]
  | strictTarget xs fallback =>
    cases h
    refine ⟨_, fun x => rfl, ?_⟩
    have hchores := mapM_suspendAfter (β := Value) host origin xs []
    rw [List.append_nil] at hchores
    simp only [apply_suspended]
    exact hchores
  | strictArgument g xs ys fallback =>
    obtain ⟨v, _, hg, h⟩ := bind_eq_some_iff.mp h
    obtain ⟨values, _, hxs, h⟩ := bind_eq_some_iff.mp h
    cases h
    refine ⟨fun a => do
      let rest ← ys.mapM id
      apply host origin v ((values ++ a :: rest).map pure) fallback, fun x => ?_, ?_⟩
    · rw [plug, bind_of_eq_some hg, List.mapM_append, bind_assoc, bind_of_eq_some hxs,
        List.mapM_cons]
      simp only [bind_assoc, pure_bind, id]
    · have hmem (rest : List (Suspendable Value)) : .suspended ∈ values ++ .suspended :: rest :=
        List.mem_append_right values List.mem_cons_self
      simp only [apply_values_suspended host origin v (hmem _)]
      exact mapM_suspendAfter host origin ys [.coerce v]

/-- Operations nested around a hole. -/
inductive Context (O σ α : Type) : Type → Type 1 where
  | hole : Context O σ α α
  | inside {β γ : Type} (outer : Layer O σ β γ) (inner : Context O σ α β) : Context O σ α γ

namespace Context

variable (host : Host O σ) (origin : O)

def plug : {β : Type} → Context O σ α β → Pass O σ (Suspendable α) → Pass O σ (Suspendable β)
  | _, hole, x => x
  | _, inside L C, x => L.plug host origin (C.plug x)

def approach : {β : Type} → Context O σ α β → Pass O σ (List (Chore O σ))
  | _, hole => return []
  | _, inside L C => do
    let outer ← L.approach host origin
    let inner ← C.approach
    return inner ++ outer

theorem plug_reaches (C : Context O σ α β) {p p₁ : Progress O σ} {chores : List (Chore O σ)}
    (h : C.approach host origin p = some (chores, p₁)) :
    Reaches host origin (C.plug host origin) p p₁ chores := by
  induction C generalizing p chores with
  | hole =>
    cases h
    exact ⟨pure, fun x => by rw [plug, bind_pure], rfl⟩
  | inside L C ih =>
    obtain ⟨outer, p', houter, h⟩ := bind_eq_some_iff.mp h
    obtain ⟨inner, _, hinner, h⟩ := bind_eq_some_iff.mp h
    cases h
    exact (L.plug_reaches host origin houter).comp (ih hinner)

def due : {β : Type} → Context O σ α β → List (Pass O σ Unit)
  | _, hole => []
  | _, inside L C => C.due ++ L.due

def strictArguments : {β : Type} → Context O σ α β → Nat
  | _, hole => 0
  | _, inside L C => C.strictArguments + L.strictArguments

def disarmed : {β : Type} → Context O σ α β → Context O σ α β
  | _, hole => hole
  | _, inside L C => inside L.disarmed C.disarmed

theorem approach_within (C : Context O σ α β) :
    Results (Chore.Within C.due C.strictArguments) (C.approach host origin) := by
  induction C with
  | hole => exact .pure ⟨rfl, rfl⟩
  | inside L C ih =>
    intro p chores q h
    obtain ⟨outer, p₁, houter, h⟩ := bind_eq_some_iff.mp h
    obtain ⟨inner, p₂, hinner, h⟩ := bind_eq_some_iff.mp h
    cases h
    exact (ih _ _ _ hinner).append (L.approach_within host origin _ _ _ houter)

theorem approach_disarmed (C : Context O σ α β) :
    C.disarmed.approach (mute host) origin = C.approach host origin := by
  induction C with
  | hole => rfl
  | inside L C ih => rw [disarmed, approach, approach, ih, L.approach_disarmed]

end Context

theorem Chore.perform_ends (host : Host O σ) (origin : O) {chores : List (Chore O σ)}
    (h : ∀ y ∈ chores.filterMap sibling?, ∀ p, ∃ q, y p = some ((), q)) (p : Progress O σ) :
    ∃ q, forM chores (Chore.perform host origin) p = some ((), q) := by
  induction chores generalizing p with
  | nil => exact ⟨p, rfl⟩
  | cons chore chores ih =>
    have hrest := ih fun y hy => h y (by
      cases chore with
      | run x => exact List.mem_cons_of_mem x hy
      | coerce f => exact hy)
    have hchore : ∃ q, chore.perform host origin p = some ((), q) := by
      cases chore with
      | run x => exact h x List.mem_cons_self p
      | coerce f =>
        cases f with
        | suspended => exact ⟨p, rfl⟩
        | ready v =>
          cases v with
          | scalar s => exact ⟨p, rfl⟩
          | function f => exact ⟨p, rfl⟩
          | object o => exact ⟨_, discard_eq_some (ask_apply host origin o .asScalar p)⟩
    obtain ⟨p₁, hp₁⟩ := hchore
    obtain ⟨q, hq⟩ := hrest p₁
    exact ⟨q, by rw [List.forM_cons, bind_of_eq_some hp₁, hq]⟩

/-- A suspended computation makes every formula around it suspended. Nothing is done after it but to
run the computations beside it that are due, and to look at the value in function position of every
application that has it among arguments run beforehand; what the operations around it were given to
apply, and the functions of the host, may as well fail. -/
theorem Context.plug_suspended (host : Host O σ) (origin : O) (C : Context O σ α β)
    {x : Pass O σ (Suspendable α)} {p p₁ p₂ : Progress O σ} {chores : List (Chore O σ)}
    (hreached : C.approach host origin p = some (chores, p₁)) (hx : x p₁ = some (.suspended, p₂)) :
    C.plug host origin x p = suspendAfter host origin chores p₂ ∧
      ((∀ y ∈ C.due, ∀ s, ∃ s', y s = some ((), s')) →
        ∃ q, C.plug host origin x p = some (.suspended, q)) ∧
      Chore.Within C.due C.strictArguments chores ∧
      C.disarmed.plug (mute host) origin x p = C.plug host origin x p := by
  have hsuspended := (C.plug_reaches host origin hreached).suspended hx
  have hwithin := C.approach_within host origin _ _ _ hreached
  have hreached' : C.disarmed.approach (mute host) origin p = some (chores, p₁) := by
    rw [C.approach_disarmed, hreached]
  have hdisarmed := (C.disarmed.plug_reaches (mute host) origin hreached').suspended hx
  refine ⟨hsuspended, fun hdue => ?_, hwithin, hdisarmed.trans hsuspended.symm⟩
  obtain ⟨q, hq⟩ := Chore.perform_ends host origin (hwithin.1.symm ▸ hdue) p₂
  exact ⟨q, by rw [hsuspended, suspendAfter, bind_of_eq_some hq]; rfl⟩

/-- A host that answers no reading, and numbers its requests. -/
def silent : Host String Nat where
  read h _ _ n := (.pending ⟨.name h.name, n⟩, n + 1)
  call _ _ _ := failure

def silentRead (name : String) : Pass String Nat (Suspendable Value) :=
  ask silent "" (.host ⟨name, 0⟩) (.field "value")

/-- The text of an operation on an application whose first argument is missing. -/
def strictContext : Context String Nat Value String :=
  .inside .text (.inside (.left (silentRead "d") fun v _ => return .ready v)
    (.inside (.strictArgument (pure (.ready (.object (.host ⟨"c", 0⟩)))) [] [silentRead "b"]
      (.text "")) .hole))

theorem plug_suspended_of_strictContext :
    ∃ q, strictContext.plug silent "" (silentRead "a") ⟨0, [], []⟩ = some (.suspended, q) ∧
      q.pending.map Request.subject = [.name "a", .name "b", .name "c", .name "d"] := by
  have hreached : strictContext.approach silent "" ⟨0, [], []⟩ =
      some ([.run (discard (silentRead "b")), .coerce (.ready (.object (.host ⟨"c", 0⟩))),
        .run (discard (silentRead "d"))], ⟨0, [], []⟩) := rfl
  have hsuspended : silentRead "a" ⟨0, [], []⟩ = some (.suspended, ⟨1, [⟨.name "a", 0⟩],
      [.read (.host ⟨"a", 0⟩) (.field "value") "" (.pending ⟨.name "a", 0⟩)]⟩) := rfl
  obtain ⟨h, -⟩ := strictContext.plug_suspended silent "" hreached hsuspended
  exact ⟨_, h, rfl⟩

end ResumableFormulas.Pass
