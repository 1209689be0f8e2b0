import ResumableFormulas.Proofs.Json.Beginning
import ResumableFormulas.Value.Interchange

/-! # The two ways to read a scalar

A scalar is read from a text directly, kind by kind, or from the document of the text. Both ways
give the same scalars. The direct one finds the kind before it looks at the end of the text, so it
knows of a document of the wrong kind also if the text is no document because something follows.
-/
namespace ResumableFormulas.Scalar
open Json (EndsDocument)

theorem findSome?_kinds (document : Json) :
    [numberOf?, textOf?, truthOf?].findSome? (· document) = ofJson? document := by
  cases document with
  | number n => cases n <;> rfl
  | null => rfl
  | boolean b => rfl
  | text s => rfl
  | array items => rfl
  | object fields => rfl

theorem ofJson?_eq_none_iff (document : Json) : ofJson? document = none ↔ document = .null ∨
    (∃ items, document = .array items) ∨ ∃ fields, document = .object fields := by
  cases document <;> simp [ofJson?]

theorem endsDocument_of_ofJson? {document : Json} (h : ofJson? document = none)
    (more : List Char) : EndsDocument document more := by
  rintro n rfl
  contradiction

section

variable {s : String}

theorem readJson_eq_ok_iff {a : Scalar} : readJson s = .ok a ↔ ∃ document rest,
    Json.first? s.toList = some (document, rest) ∧ Json.skipBlanks rest = [] ∧
      ofJson? document = some a := by
  rw [readJson]
  cases hfirst : Json.first? s.toList with
  | none => simp
  | some found =>
    obtain ⟨document, rest⟩ := found
    simp only [findSome?_kinds]
    cases hkind : ofJson? document with
    | none => simp_all
    | some b =>
      by_cases hend : Json.skipBlanks rest = []
      · simp [hend, hkind]
      · simp [hend]

theorem readJson_eq_wrongKind_iff : readJson s = .error .wrongKind ↔ ∃ document rest,
    Json.first? s.toList = some (document, rest) ∧ ofJson? document = none := by
  rw [readJson]
  cases hfirst : Json.first? s.toList with
  | none => simp
  | some found =>
    obtain ⟨document, rest⟩ := found
    simp only [findSome?_kinds]
    cases hkind : ofJson? document with
    | none => simp_all
    | some b =>
      by_cases hend : Json.skipBlanks rest = []
      · simp [hend, hkind]
      · simp [hend, hkind]

theorem read?_eq_some_iff {document : Json} : Json.read? s = some document ↔ ∃ rest,
    Json.first? s.toList = some (document, rest) ∧ Json.skipBlanks rest = [] := by
  rw [Json.read?]
  cases hfirst : Json.first? s.toList with
  | none => simp
  | some found =>
    obtain ⟨other, rest⟩ := found
    by_cases hend : Json.skipBlanks rest = []
    · simp [hend]
    · simp [hend]

end

theorem readers_agree (s : String) :
    (∀ a, readJson s = .ok a ↔
      ∃ document, Json.read? s = some document ∧ ofJson? document = some a) ∧
    (readJson s = .error .wrongKind ↔ ∃ beginning rest document, s = beginning ++ rest ∧
      Json.read? beginning = some document ∧ ofJson? document = none) ∧
    ∀ document, ofJson? document = none ↔ document = .null ∨
      (∃ items, document = .array items) ∨ ∃ fields, document = .object fields := by
  refine ⟨?_, ?_, ofJson?_eq_none_iff⟩
  · intro a
    rw [readJson_eq_ok_iff]
    constructor
    · rintro ⟨document, rest, hfirst, hend, hkind⟩
      exact ⟨document, read?_eq_some_iff.mpr ⟨rest, hfirst, hend⟩, hkind⟩
    · rintro ⟨document, hread, hkind⟩
      obtain ⟨rest, hfirst, hend⟩ := read?_eq_some_iff.mp hread
      exact ⟨document, rest, hfirst, hend, hkind⟩
  · rw [readJson_eq_wrongKind_iff]
    constructor
    · rintro ⟨document, rest, hfirst, hkind⟩
      obtain ⟨used, hused, extend⟩ := Json.first?_split hfirst
      have halone := extend [] (endsDocument_of_ofJson? hkind [])
      rw [List.append_nil] at halone
      refine ⟨String.ofList used, String.ofList rest, document, ?_, ?_, hkind⟩
      · rw [← String.ofList_append, ← hused, String.ofList_toList]
      · apply read?_eq_some_iff.mpr
        rw [String.toList_ofList]
        exact ⟨[], halone, rfl⟩
    · rintro ⟨beginning, rest, document, rfl, hread, hkind⟩
      obtain ⟨behind, hfirst, -⟩ := read?_eq_some_iff.mp hread
      obtain ⟨used, hused, extend⟩ := Json.first?_split hfirst
      refine ⟨document, behind ++ rest.toList, ?_, hkind⟩
      rw [String.toList_append, hused, List.append_assoc]
      exact extend _ (endsDocument_of_ofJson? hkind _)

/-- A text that begins with null is no document if a letter follows, but it is of the wrong kind. -/
theorem wrongKind_before_letter :
    ¬(readJson "nullx" = .error .wrongKind ↔
      ∃ document, Json.read? "nullx" = some document ∧ ofJson? document = none) := by
  have hfirst : Json.first? "nullx".toList = some (.null, ['x']) := by rfl
  intro h
  obtain ⟨document, hread, -⟩ := h.mp (readJson_eq_wrongKind_iff.mpr ⟨.null, ['x'], hfirst, rfl⟩)
  obtain ⟨rest, hfirst', hend⟩ := read?_eq_some_iff.mp hread
  rw [hfirst] at hfirst'
  obtain ⟨-, rfl⟩ := Prod.mk.inj (Option.some.inj hfirst')
  contradiction

end ResumableFormulas.Scalar
