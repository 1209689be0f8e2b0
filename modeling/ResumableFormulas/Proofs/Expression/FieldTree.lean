import ResumableFormulas.Proofs.Workbook.Sheet

/-! # Trees of operators over fields

No operator looks at its left operand before it has the right one, so a pass asks for all the empty
fields of a tree, from left to right and each as often as it occurs, whatever errors there are among
the others. Once these are filled the next pass has the value, which is that of the tree with the
contents in place of the fields.
-/
namespace ResumableFormulas
open Pass

/-- The slots contain scalars, functions and errors, but no objects of the host. -/
def Sheet.HoldsOperands {O σ S : Type} {host : Host O σ} {origin : O} {handle : Handle}
    {stable : σ → Prop} (sheet : Sheet host origin handle stable S) : Prop :=
  ∀ s name v, stable s → sheet.content s (sheet.slot name) = some v → ∀ h, v ≠ .object (.host h)

/-- Operators applied to one another, to scalars and to fields of the context. -/
inductive FieldTree where
  | literal (s : Scalar)
  | field (name : String) (fallback : Value)
  | unary (operator : UnaryOperator) (x : FieldTree)
  | binary (operator : BinaryOperator) (x y : FieldTree)

namespace FieldTree

def expr : FieldTree → Expr
  | literal s => .literal (.value (.scalar s))
  | field name fallback => .read .context (.field name) (.value fallback)
  | unary operator x => .unary operator x.expr
  | binary operator x y => .binary operator x.expr y.expr

/-- The names of the fields from left to right, each as often as it occurs. -/
def names : FieldTree → List String
  | literal _ => []
  | field name _ => [name]
  | unary _ x => x.names
  | binary _ x y => x.names ++ y.names

/-- The tree with contents in place of the fields, if there are all of them. -/
def fill (content : String → Option Value) : FieldTree → Option OperatorTree
  | literal s => some (.leaf (.scalar s))
  | field name _ => do return .leaf (← content name)
  | unary operator x => do return .unary operator (← x.fill content)
  | binary operator x y => do return .binary operator (← x.fill content) (← y.fill content)

section

variable {σ S : Type} {world : World σ} {call : Caller σ} {origin : String} {handle : Handle}
  {stable : σ → Prop} (sheet : Sheet (world.host call) origin handle stable S)
  (stands : Handle → Except ErrorObject Scalar) (content : S → Option Value)

/-- The value that a tree is to have, an operand that needs no request. -/
def IsValue (t : FieldTree) (v : Value) : Prop :=
  world.IsOperand (sheet.At content) origin stands v ∧
    ∃ filled, t.fill (fun name => content (sheet.slot name)) = some filled ∧
      v = filled.value stands

variable {content}

/-- A pass asks for the empty fields of a tree and has its value if there are none. -/
theorem discovers_expr
    (hcontent : ∀ name v, content (sheet.slot name) = some v → ∀ h, v ≠ .object (.host h))
    (arguments : List Value) (t : FieldTree) :
    sheet.Discovers content (sheet.missing t.names content) (t.IsValue sheet stands content)
      (t.expr.eval world call ⟨origin, .host handle, arguments⟩) := by
  induction t with
  | literal s => exact .ready ⟨nofun, _, rfl, rfl⟩
  | field name fallback =>
    have hask : sheet.Discovers content (sheet.missing [name] content)
        (fun v => content (sheet.slot name) = some v)
        ((field name fallback).expr.eval world call ⟨origin, .host handle, arguments⟩) :=
      sheet.discovers_ask content name
    refine hask.mono fun v hv => ⟨fun h hvh => absurd hvh (hcontent _ v hv h), .leaf v, ?_, rfl⟩
    simp [fill, hv]
  | unary operator x ih =>
    refine ih.andThen fun v hv => ?_
    obtain ⟨hx, filled, hfill, rfl⟩ := hv
    obtain ⟨hoperand, hop⟩ := World.settles_unary_value call operator hx
    exact .of_settles hop ⟨hoperand, _, by simp [fill, hfill], rfl⟩
  | binary operator x y ihx ihy =>
    -- The requests of both operands are there before the operator is.
    rw [names, sheet.missing_append]
    refine ihx.andThenBoth ihy fun v w hv hw => ?_
    obtain ⟨hx, filledX, hfillX, rfl⟩ := hv
    obtain ⟨hy, filledY, hfillY, rfl⟩ := hw
    obtain ⟨hoperand, hop⟩ := World.settles_binary_value call operator hx hy
    exact .of_settles hop ⟨hoperand, _, by simp [fill, hfillX, hfillY], rfl⟩

/-- All the empty fields of the tree at once, if there are any. -/
def plan (t : FieldTree) (content : S → Option Value) : List (List S) :=
  if sheet.missing t.names content = [] then [] else [sheet.missing t.names content]

variable {t : FieldTree} {arguments : List Value} {formula : Formula String σ}
  (hoperands : sheet.HoldsOperands) (hformula : formula origin (.host handle) =
    t.expr.eval world call ⟨origin, .host handle, arguments⟩)

include hoperands hformula in
theorem evaluate_expr {s : σ} (hs : stable s) :
    ∃ e, formula.evaluate origin (.host handle) s = some e ∧
      Found (t.IsValue sheet stands (sheet.content s)) (sheet.missing t.names (sheet.content s))
        e.value ∧
      e.pending.map sheet.subject = sheet.missing t.names (sheet.content s) ∧
      sheet.At (sheet.content s) e.host := by
  have h := t.discovers_expr sheet stands (hoperands s · · hs) arguments
  rw [← hformula] at h
  exact h.evaluate ⟨hs, rfl⟩

include stands hoperands hformula in
theorem plans_expr : sheet.Plans formula (t.plan sheet) := by
  rintro _ s ⟨hs, rfl⟩
  obtain ⟨e, he, hfound, hpending, hat⟩ := evaluate_expr sheet stands hoperands hformula hs
  refine ⟨e, he, ?_⟩
  unfold plan
  generalize hvalue : e.value = v at hfound
  generalize sheet.missing t.names (sheet.content s) = asked at hfound hpending
  cases hfound with
  | ready hv => exact .value hvalue
  | suspended h =>
    rw [if_neg h]
    exact .requests hvalue hpending h hat []

theorem advances_plan : sheet.Advances (t.plan sheet) sheet.Fills := by
  rintro pending before after rest hbefore hplan ⟨hstable, hfills⟩
  refine ⟨hstable hbefore, ?_⟩
  by_cases hmissing : sheet.missing t.names (sheet.content before) = []
  · rw [plan, if_pos hmissing] at hplan
    contradiction
  rw [plan, if_neg hmissing] at hplan
  obtain ⟨hpending, rfl⟩ := List.cons.inj hplan
  refine if_pos (List.eq_nil_iff_forall_not_mem.mpr fun k hk => ?_)
  obtain ⟨hname, hnone⟩ := sheet.mem_missing.mp hk
  obtain ⟨hbefore, hnot⟩ := hfills k hnone
  exact hnot (hpending ▸ sheet.mem_missing.mpr ⟨hname, hbefore⟩)

/-- All the empty fields of a tree are discovered in one pass, which asks for them from left to
right, each as often as it occurs, and has a value iff there are none. If a round fills what it is
asked for, then one round is enough, and none is made if no field is empty. -/
theorem fields_discovered_at_once (sheet : Sheet (world.host call) origin handle stable S)
    (hoperands : sheet.HoldsOperands) (stands : Handle → Except ErrorObject Scalar)
    (t : FieldTree) (arguments : List Value) (s : Session String σ)
    (hs : s.formula origin (.host handle) =
      t.expr.eval world call ⟨origin, .host handle, arguments⟩)
    (start : σ) (hstart : stable start) :
    (∃ e, s.formula.evaluate origin (.host handle) start = some e ∧
      e.pending.map sheet.subject = sheet.missing t.names (sheet.content start) ∧
      (e.value.isReady = true ↔ ∀ name ∈ t.names, sheet.content start (sheet.slot name) ≠ none)) ∧
    ∀ resolve, 2 ≤ s.maxPasses → s.Served origin (.host handle) resolve start sheet.Fills →
      ∃ turn filled, s.run origin (.host handle) resolve start = some turn ∧
        t.fill (fun name => sheet.content turn.host (sheet.slot name)) = some filled ∧
        turn.result = .ok (filled.value stands) ∧
        (sheet.missing t.names (sheet.content start) = [] →
          turn.session.passes = 1 ∧ turn.rounds = []) ∧
        (sheet.missing t.names (sheet.content start) ≠ [] →
          turn.session.passes = 2 ∧ turn.rounds.map (·.map sheet.subject) =
            [sheet.missing t.names (sheet.content start)]) := by
  constructor
  · obtain ⟨e, he, hfound, hpending, -⟩ := evaluate_expr sheet stands hoperands hs hstart
    refine ⟨e, he, hpending, ?_⟩
    have hfull : sheet.missing t.names (sheet.content start) = [] ↔
        ∀ name ∈ t.names, sheet.content start (sheet.slot name) ≠ none := by
      simp [Sheet.missing, Option.isNone_iff_eq_none]
    rw [← hfull]
    exact hfound.isReady_iff
  · intro resolve hmax hserved
    obtain ⟨turn, hrun, hvalue, -⟩ :=
      sheet.run_of_plan (plans_expr sheet stands hoperands hs) (advances_plan sheet) hstart hserved
    have hlength : (t.plan sheet (sheet.content start)).length < max 1 s.maxPasses := by
      unfold plan
      split
      · rw [List.length_nil]
        omega
      · rw [List.length_singleton]
        omega
    obtain ⟨hpasses, hrounds, before, e, v, hbefore, he, hv, hhost, hresult⟩ := hvalue hlength
    obtain ⟨e', he', hfound, -, hat⟩ := evaluate_expr sheet stands hoperands hs hbefore
    obtain rfl := Option.some.inj (he.symm.trans he')
    rw [hv] at hfound
    obtain ⟨-, filled, hfill, rfl⟩ := hfound.of_ready
    refine ⟨turn, filled, hrun, ?_, hresult, ?_, ?_⟩
    · rw [hhost, hat.2]
      exact hfill
    · intro hnil
      rw [plan, if_pos hnil] at hpasses hrounds
      exact ⟨hpasses, List.map_eq_nil_iff.mp hrounds⟩
    · intro hne
      rw [plan, if_neg hne] at hpasses hrounds
      exact ⟨hpasses, hrounds⟩

theorem fields_discovered_at_once_of_zero_divisor :
    let t : FieldTree := .binary .add
      (.binary .divide (.field "a" (.text "")) (.literal (.number 0)))
      (.binary .multiply (.field "b" (.text "")) (.field "a" (.text "")))
    let s : Session String Cells := .new (Workbook.pair.formula t.expr) 2
    ∃ turn v, s.run "" (.host ⟨"pair", 0⟩)
        (Resolution.resolver [⟨[], some (.value (.text "6")), none⟩]) .empty = some turn ∧
      turn.result = .ok v ∧ turn.session.passes = 2 ∧
      turn.rounds.map (·.map Place.ofRequest) = [[.slot "a", .slot "b", .slot "a"]] := by
  intro t s
  let columns := Workbook.pairColumns ""
  let allowed : (Place → Option Value) → Prop := fun content =>
    ∀ name v, content (columns.place name) = some v → ∀ h, v ≠ .object (.host h)
  let call := Workbook.pair.caller (.host ⟨"pair", 0⟩)
  have hallowed : ∀ pending cells, (allowed fun k => k.content cells) →
      allowed fun k => k.content (Resolution.fillPending (.value (.text "6")) pending cells) := by
    intro pending cells h name v hv
    rcases Resolution.content_fillPending (.text "6") pending cells (columns.place name) with
      ⟨hk, -⟩ | ⟨hk, -⟩
    · exact h name v (hk.symm.trans hv)
    · obtain rfl := Option.some.inj (hk.symm.trans hv)
      nofun
  have hserved := (Resolution.served_pending columns call (.text "6") hallowed s
    (.host ⟨"pair", 0⟩) .empty).mono fun _ _ _ h => h.fills
  have hstart : allowed fun k => k.content Cells.empty := by
    intro name v hv
    simp only [columns, Workbook.pairColumns] at hv
    split at hv <;> contradiction
  obtain ⟨-, hrun⟩ := fields_discovered_at_once (columns.sheet call allowed)
    (fun _ name v h => h name v) (fun _ => .error (.builtin .functionOperand)) t [] s rfl .empty
    hstart
  obtain ⟨turn, filled, hturn, -, hresult, -, hsuspended⟩ := hrun _ (Nat.le_refl 2) hserved
  have hmissing : (columns.sheet call allowed).missing t.names (fun k => k.content .empty) =
      [.slot "a", .slot "b", .slot "a"] := rfl
  obtain ⟨hpasses, hrounds⟩ := hsuspended (hmissing ▸ List.cons_ne_nil _ _)
  exact ⟨turn, _, hturn, hresult, hpasses, hrounds⟩

end

end FieldTree

end ResumableFormulas
