import ResumableFormulas.Proofs.Session.Slots
import ResumableFormulas.Workbook.Resolution

/-! # The slots of a workbook

A workbook is a world of slots if its objects answer with slots and with values that are there from
the start. Such a value is in a place of its own, which is never empty.
-/
namespace ResumableFormulas

/-- Where an answer is found: in a slot, or in the definition itself. -/
inductive Place where
  | slot (name : String)
  | fixed (v : Value)

namespace Place

def content (cells : Cells) : Place → Option Value
  | slot name => cells.slots.lookup name
  | fixed v => some v

/-- The place that a request is waiting for. No slot is asked for by a number. -/
def ofRequest (r : Request) : Place :=
  match r.subject with
  | .name name => slot name
  | .number _ => fixed (.text "")

theorem content_eq_of_slots {cells cells' : Cells} (h : cells'.slots = cells.slots) :
    (fun k => content cells' k) = fun k => content cells k := by
  funext k
  cases k with
  | slot name => simp only [content, h]
  | fixed v => rfl

end Place

/-- The place of a response, unless it makes something new or waits for no slot. -/
def Response.place (response : Response) (origin propertyName : String) : Option Place :=
  match response with
  | .value (.value v) => some (.fixed v)
  | .value (.newObject _) | .value (.newFunction _) | .value (.newError _) | .request _ => none
  | .slot name => some (.slot name)
  | .origin => some (.fixed (.text origin))
  | .propertyName => some (.fixed (.text propertyName))

theorem Response.answer_of_place {response : Response} {origin propertyName : String} {k : Place}
    (h : response.place origin propertyName = some k) (cells : Cells) :
    (response.answer origin propertyName cells).2.slots = cells.slots ∧
      match k.content cells with
      | some v => (response.answer origin propertyName cells).1 = .value v
      | none => ∃ r, (response.answer origin propertyName cells).1 = .pending r ∧
          Place.ofRequest r = k := by
  unfold place at h
  split at h
  case h_1 | h_7 | h_8 =>
    obtain rfl := Option.some.inj h
    exact ⟨rfl, rfl⟩
  case h_6 name =>
    obtain rfl := Option.some.inj h
    unfold answer
    cases hc : cells.slots.lookup name with
    | some v => simp [Place.content, hc]
    | none => simp [Place.content, hc, Cells.mint, Place.ofRequest]
  all_goals contradiction

namespace Workbook

variable {w : Workbook} {origin : String}

def response (w : Workbook) (handle : Handle) (property : Property) : Response :=
  ((w.objects.lookup handle.name).getD ⟨none, none, [], none⟩).response property

/-- All answers of the workbook have a place. -/
def Placed (w : Workbook) (origin : String) : Prop :=
  ∀ handle property, ((w.response handle property).place origin property.name).isSome

theorem read_of_place {handle : Handle} {property : Property} {k : Place}
    (h : (w.response handle property).place origin property.name = some k) (cells : Cells) :
    (w.world.read handle property origin cells).2.slots = cells.slots ∧
      match k.content cells with
      | some v => (w.world.read handle property origin cells).1 = .value v
      | none => ∃ r, (w.world.read handle property origin cells).1 = .pending r ∧
          Place.ofRequest r = k :=
  Response.answer_of_place h cells

theorem Placed.place_eq (h : w.Placed origin) (handle : Handle) (property : Property) :
    (w.response handle property).place origin property.name =
      some (((w.response handle property).place origin property.name).get (h handle property)) :=
  (Option.some_get _).symm

/-- A workbook all of whose answers have a place is a world of slots. -/
def slots (w : Workbook) (h : w.Placed origin) : Slots w.world origin Place where
  slot handle property :=
    ((w.response handle property).place origin property.name).get (h handle property)
  content cells k := k.content cells
  subject := Place.ofRequest
  read_filled cells handle property v hv := by
    have hread := (read_of_place (h.place_eq handle property) cells).2
    rwa [hv] at hread
  read_empty cells handle property hc := by
    have hread := (read_of_place (h.place_eq handle property) cells).2
    rwa [hc] at hread
  content_read cells handle property :=
    Place.content_eq_of_slots (read_of_place (h.place_eq handle property) cells).1

end Workbook

namespace Resolution

theorem lookup_fillPending (v : Value) (pending : List Request) (cells : Cells) (name : String) :
    (fillPending (.value v) pending cells).slots.lookup name =
      if .name name ∈ pending.map (·.subject) then some v else cells.slots.lookup name := by
  induction pending generalizing cells with
  | nil => simp [fillPending]
  | cons r rest ih =>
    simp only [fillPending, List.foldl_cons] at ih ⊢
    rw [ih]
    by_cases hrest : .name name ∈ rest.map (·.subject)
    · rw [if_pos hrest, if_pos (by simp only [List.map_cons]; exact .tail _ hrest)]
    rw [if_neg hrest]
    cases hr : r.subject with
    | number n =>
      rw [if_neg (by simpa [hr] using hrest)]
    | name other =>
      by_cases hname : name = other
      · subst hname
        simp [hr, Cells.fill, Literal.realize]
      · rw [if_neg (by simpa [hr, hname] using hrest)]
        exact Cells.lookup_put_of_ne cells (some v) hname

/-- A place has been filled by a round if it was asked for, and is as it was if not. -/
theorem content_fillPending (v : Value) (pending : List Request) (cells : Cells) (k : Place) :
    k.content (fillPending (.value v) pending cells) = k.content cells ∧
        (k.content cells = none → k ∉ pending.map Place.ofRequest) ∨
      k.content (fillPending (.value v) pending cells) = some v ∧
        k ∈ pending.map Place.ofRequest := by
  cases k with
  | fixed w => exact .inl ⟨rfl, nofun⟩
  | slot name =>
    have hmem : Place.slot name ∈ pending.map Place.ofRequest ↔
        .name name ∈ pending.map (·.subject) := by
      simp only [List.mem_map]
      refine exists_congr fun r => and_congr_right fun _ => ?_
      cases hr : r.subject <;> simp [Place.ofRequest, hr]
    have hafter := lookup_fillPending v pending cells name
    by_cases hname : .name name ∈ pending.map (·.subject)
    · rw [if_pos hname] at hafter
      exact .inr ⟨hafter, hmem.mpr hname⟩
    · rw [if_neg hname] at hafter
      exact .inl ⟨hafter, fun _ h => hname (hmem.mp h)⟩

/-- A round that fills all slots asked for with the same value. -/
theorem fills_pending {w : Workbook} {origin : String} (h : w.Placed origin) (v : Value)
    {pending : List Request} {cells : Cells} (hp : pending ≠ [])
    (hmissing : ∀ r ∈ pending, (w.slots h).Missing ((w.slots h).content cells) (.ofRequest r)) :
    (w.slots h).Fills (fun _ => v) pending cells (fillPending (.value v) pending cells) := by
  refine ⟨fun k => ?_, ?_⟩
  · rcases content_fillPending v pending cells k with ⟨hk, -⟩ | ⟨hk, hmem⟩
    · exact .inl hk
    · obtain ⟨r, hr, rfl⟩ := List.mem_map.mp hmem
      exact .inr ⟨(hmissing r hr).1, hk⟩
  · obtain ⟨r, hr⟩ := List.exists_mem_of_ne_nil pending hp
    refine ⟨r, hr, fun hnone => ?_⟩
    rcases content_fillPending v pending cells (.ofRequest r) with ⟨-, hnot⟩ | ⟨hk, -⟩
    · exact hnot (hmissing r hr).1 (List.mem_map_of_mem hr)
    · exact Option.some_ne_none v (hk.symm.trans hnone)

theorem resolver_pending (v : Value) (n : Nat) (pending : List Request) (cells : Cells) :
    resolver [⟨[], some (.value v), none⟩] n pending cells =
      (.ok (), fillPending (.value v) pending cells) := by
  cases n <;> rfl

end Resolution

end ResumableFormulas
