import ResumableFormulas.Proofs.Session.Discovery
import ResumableFormulas.Proofs.Workbook.Slots

/-! # The sheets of a workbook

An object of a workbook is a sheet if there is a place for each of its fields. What may be in the
slots can be restricted, since to read a field leaves them as they are. A round that fills all slots
waited for fills no other one.
-/
namespace ResumableFormulas

deriving instance DecidableEq for Place

namespace Workbook

/-- The place of each field of an object. -/
structure Columns (w : Workbook) (origin : String) (handle : Handle) where
  place : String → Place
  response_place : ∀ name,
    (w.response handle (.field name)).place origin name = some (place name)

/-- An object of a workbook with a place for each of its fields, and with allowed contents. -/
def Columns.sheet {w : Workbook} {origin : String} {handle : Handle}
    (columns : w.Columns origin handle) (call : Caller Cells)
    (allowed : (Place → Option Value) → Prop) :
    Sheet (w.world.host call) origin handle (fun cells => allowed fun k => k.content cells)
      Place where
  slot := columns.place
  content cells k := k.content cells
  subject := Place.ofRequest
  read_filled cells name v _ hv := by
    have hread := (read_of_place (columns.response_place name) cells).2
    rwa [hv] at hread
  read_empty cells name _ hc := by
    have hread := (read_of_place (columns.response_place name) cells).2
    rwa [hc] at hread
  content_read cells name _ :=
    Place.content_eq_of_slots (read_of_place (columns.response_place name) cells).1
  stable_read cells name hallowed := by
    have hslots := (read_of_place (columns.response_place name) cells).1
    rwa [← Place.content_eq_of_slots hslots] at hallowed

end Workbook

namespace Resolution

/-- To fill all slots that are waited for with a value is to fill exactly these, in every round. -/
theorem served_pending {w : Workbook} {origin : String} {handle : Handle}
    (columns : w.Columns origin handle) (call : Caller Cells)
    {allowed : (Place → Option Value) → Prop} (v : Value)
    (hallowed : ∀ pending cells, (allowed fun k => k.content cells) →
      allowed fun k => k.content (fillPending (.value v) pending cells))
    (s : Session String Cells) (context : Object) (start : Cells) :
    s.Served origin context (resolver [⟨[], some (.value v), none⟩]) start
      (columns.sheet call allowed).FillsExactly := by
  intro es before e _ _ _ _
  refine ⟨_, resolver_pending v es.length e.pending e.host, hallowed e.pending e.host, fun k => ?_⟩
  change k.content _ = none ↔ k.content e.host = none ∧ k ∉ e.pending.map Place.ofRequest
  rcases content_fillPending v e.pending e.host k with ⟨hk, hnot⟩ | ⟨hk, hmem⟩
  · rw [hk]
    exact ⟨fun hnone => ⟨hnone, hnot hnone⟩, And.left⟩
  · rw [hk]
    exact ⟨nofun, fun hnone => absurd hmem hnone.2⟩

end Resolution

/-- A sheet with the slot `a` for the field of this name, and the slot `b` for all others. -/
def Workbook.pair : Workbook :=
  ⟨[("pair", ⟨none, none, [("a", .slot "a")], some (.slot "b")⟩)], []⟩

def Workbook.pairColumns (origin : String) : Workbook.pair.Columns origin ⟨"pair", 0⟩ where
  place name := if name = "a" then .slot "a" else .slot "b"
  response_place name := by
    have hresponse : pair.response ⟨"pair", 0⟩ (.field name) =
        if name = "a" then .slot "a" else .slot "b" := by
      by_cases ha : name = "a"
      · subst ha
        rfl
      · simp [pair, response, ObjectDefinition.response, List.lookup_cons, beq_false_of_ne ha, ha]
    rw [hresponse]
    split <;> rfl

end ResumableFormulas
