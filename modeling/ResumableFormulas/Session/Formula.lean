import ResumableFormulas.Pass.Basic

/-! # Formulas and single evaluations

A formula is anything that makes a pass out of an origin and the object it is evaluated against. One
evaluation runs its pass with nothing pending and an empty journal.
-/
namespace ResumableFormulas

/-- A formula, for origins of type `O` and hosts of state `σ`. -/
abbrev Formula (O σ : Type) : Type := O → Object → Pass O σ (Suspendable Value)

/-- What one pass of a formula comes to. -/
structure Evaluation (O σ : Type) where
  value : Suspendable Value
  pending : List Request
  journal : List (Event O)
  host : σ

/-- Runs a pass on its own. -/
def Pass.evaluation {O σ : Type} (pass : Pass O σ (Suspendable Value)) (host : σ) :
    Option (Evaluation O σ) :=
  (pass ⟨host, [], []⟩).map fun (value, p) => ⟨value, p.pending, p.journal, p.host⟩

/-- Evaluates a formula once. -/
def Formula.evaluate {O σ : Type} (formula : Formula O σ) (origin : O) (context : Object)
    (host : σ) : Option (Evaluation O σ) :=
  (formula origin context).evaluation host

theorem Formula.evaluate_eq_some_iff {O σ : Type} {formula : Formula O σ} {origin : O}
    {context : Object} {host : σ} {e : Evaluation O σ} :
    formula.evaluate origin context host = some e ↔ formula origin context ⟨host, [], []⟩ =
      some (e.value, ⟨e.host, e.pending, e.journal⟩) := by
  simp only [evaluate, Pass.evaluation, Option.map_eq_some_iff, Prod.exists]
  constructor
  · rintro ⟨r, q, h, rfl⟩
    exact h
  · intro h
    exact ⟨_, _, h, rfl⟩

end ResumableFormulas
