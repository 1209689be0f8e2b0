import ResumableFormulas.Workbook.Basic

/-! # Resolving the requests of a workbook

A resolution is one round of making slots available: named ones first, then those that are waited
for, and then it may give up. A list of resolutions serves one round each, its last one all rounds
after it.
-/
namespace ResumableFormulas

/-- What is done in one round. -/
structure Resolution where
  slots : List (String × Option Literal)
  /-- What every slot that is waited for is filled with, evaluated anew for each. -/
  pendingSlots : Option Literal
  /-- Why the round fails in the end, if it does. -/
  failure : Option String

namespace Resolution

/-- Fills the slots that the requests are about. -/
def fillPending (l : Literal) (pending : List Request) (cells : Cells) : Cells :=
  pending.foldl
    (fun cells request =>
      match request.subject with
      | .name name => cells.fill name (some l)
      | .number _ => cells)
    cells

/-- Carries out one round. -/
def resolve (r : Resolution) (pending : List Request) (cells : Cells) :
    Except String Unit × Cells :=
  let cells := cells.fillAll r.slots
  let cells := match r.pendingSlots with
    | some l => fillPending l pending cells
    | none => cells
  match r.failure with
  | some reason => (.error reason, cells)
  | none => (.ok (), cells)

/-- The resolver that carries out the given rounds. -/
def resolver (rounds : List Resolution) : Session.Resolver Cells := fun round pending cells =>
  match rounds[round]?.or rounds.getLast? with
  | some r => r.resolve pending cells
  | none => (.ok (), cells)

end Resolution

end ResumableFormulas
