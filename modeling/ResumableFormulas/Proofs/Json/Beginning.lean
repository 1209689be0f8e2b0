import ResumableFormulas.Json.Reader
import ResumableFormulas.Proofs.Json.Numerals
import ResumableFormulas.Proofs.Json.Text

/-! # What is read does not depend on what follows

A reader that succeeds has taken a beginning of its text, and takes the same beginning of every text
that begins so. Only a numeral has to end where it ended: what follows must not go on with it. In a
document that is a closing bracket, a comma or a blank anyway.
-/
namespace ResumableFormulas

/-- A reader that goes on to wrap what it has read. -/
theorem wrapped_eq_some {α β : Type} {read : Option (α × List Char)} {wrap : α → β} {b : β}
    {rest : List Char} : (read.bind fun found => some (wrap found.1, found.2)) = some (b, rest) ↔
      ∃ a, read = some (a, rest) ∧ wrap a = b := by
  cases read with
  | none => simp
  | some found =>
    obtain ⟨a, behind⟩ := found
    simp [and_comm]

namespace Numeral

/-! ## Numerals -/

/-- What follows a numeral without going on with it. -/
def Ends (cs : List Char) : Prop := ∀ c ∈ cs.head?, c.isDigit = false ∧ c ∉ ['.', 'e', 'E']

theorem Ends.noDigit {cs : List Char} (h : Ends cs) : NoDigit cs := by
  intro c hc
  rw [(h c hc).1]
  exact Bool.false_ne_true

section Stages

variable {cs rest : List Char}

theorem digits?_eq_some {ds : List Char} (h : digits? cs = some (ds, rest)) :
    cs = ds ++ rest ∧ IsDigits ds := by
  have hdigits : ∀ c ∈ cs.takeWhile Char.isDigit, c.isDigit := fun c => List.mem_takeWhile_imp
  have hsplit := List.takeWhile_append_dropWhile (p := Char.isDigit) (l := cs)
  rw [digits?] at h
  split at h
  case h_1 => contradiction
  case h_2 hne =>
    obtain ⟨rfl, rfl⟩ := Prod.mk.inj (Option.some.inj h)
    exact ⟨hsplit.symm, hdigits, hne⟩

theorem whole?_split {ds : List Char} (h : whole? cs = some (ds, rest)) :
    cs = ds ++ rest ∧ IsDigits ds ∧
      ∀ more, NoDigit more → whole? (ds ++ more) = some (ds, more) := by
  rw [whole?] at h
  split at h
  case h_1 => contradiction
  case h_2 hleading =>
    obtain ⟨hcs, hds⟩ := digits?_eq_some h
    refine ⟨hcs, hds, ?_⟩
    intro more hmore
    rw [whole?, digits?_append hds hmore]
    split
    case h_1 heq =>
      obtain ⟨rfl, -⟩ := Prod.mk.inj (Option.some.inj heq)
      exact absurd h (hleading _ _ _)
    case h_2 => rfl

theorem fraction?_split {f : Option (List Char)} (h : fraction? cs = some (f, rest)) :
    ∃ used, cs = used ++ rest ∧ ∀ more, NoDigit more → more.head? ≠ some '.' →
      NoDigit (used ++ more) ∧ fraction? (used ++ more) = some (f, more) := by
  rw [fraction?.eq_def] at h
  split at h
  case h_1 tail =>
    obtain ⟨⟨ds, behind⟩, hdigits, heq⟩ := Option.map_eq_some_iff.mp h
    obtain ⟨rfl, rfl⟩ := Prod.mk.inj heq
    obtain ⟨rfl, hds⟩ := digits?_eq_some hdigits
    refine ⟨'.' :: ds, rfl, ?_⟩
    intro more hmore _
    refine ⟨noDigit_cons (by decide) _, ?_⟩
    rw [List.cons_append, fraction?, digits?_append hds hmore]
    rfl
  case h_2 =>
    obtain ⟨rfl, rfl⟩ := Prod.mk.inj (Option.some.inj h)
    refine ⟨[], rfl, ?_⟩
    intro more hmore hpoint
    refine ⟨hmore, ?_⟩
    rw [List.nil_append, fraction?.eq_def]
    split
    case h_1 => exact absurd rfl hpoint
    case h_2 => rfl

/-- How the sign of an exponent is written. -/
def IsSign (sign : List Char) (negative : Bool) : Prop :=
  (sign, negative) ∈ [(['-'], true), (['+'], false), ([], false)]

theorem exponent?_signed {c : Char} {sign ds more : List Char} {negative : Bool}
    (hc : c = 'e' ∨ c = 'E') (hsign : IsSign sign negative) (hds : IsDigits ds)
    (hmore : NoDigit more) :
    exponent? (c :: (sign ++ (ds ++ more))) = some (some (negative, ds), more) := by
  have hdigits := digits?_append hds hmore
  obtain ⟨d, ds, rfl⟩ := List.exists_cons_of_ne_nil hds.ne_nil
  have hdigit : d.isDigit = true := hds.digits d (List.mem_cons_self ..)
  have hminus : d ≠ '-' := by
    rintro rfl
    contradiction
  have hplus : d ≠ '+' := by
    rintro rfl
    contradiction
  simp only [List.cons_append] at hdigits
  simp only [IsSign, List.mem_cons, Prod.mk.injEq, List.not_mem_nil, or_false] at hsign
  rcases hsign with ⟨rfl, rfl⟩ | ⟨rfl, rfl⟩ | ⟨rfl, rfl⟩
  · simp [exponent?, hc, hdigits]
  · simp [exponent?, hc, hdigits]
  · simp [exponent?, hc, hminus, hplus, hdigits]

theorem exists_signed {c : Char} {e : Option (Bool × List Char)} (hc : c = 'e' ∨ c = 'E')
    (h : exponent? (c :: cs) = some (e, rest)) :
    ∃ sign negative ds, IsSign sign negative ∧ IsDigits ds ∧ cs = sign ++ (ds ++ rest) ∧
      e = some (negative, ds) := by
  rw [exponent?.eq_def] at h
  simp only [if_pos hc] at h
  -- The sign is recognised by the first character, which may be missing.
  split at h
  all_goals
    obtain ⟨⟨ds, behind⟩, hdigits, heq⟩ := Option.map_eq_some_iff.mp h
    obtain ⟨rfl, rfl⟩ := Prod.mk.inj heq
    obtain ⟨rfl, hds⟩ := digits?_eq_some hdigits
  · exact ⟨['-'], true, ds, by simp [IsSign], hds, rfl, rfl⟩
  · exact ⟨['+'], false, ds, by simp [IsSign], hds, rfl, rfl⟩
  · exact ⟨[], false, ds, by simp [IsSign], hds, rfl, rfl⟩

theorem exponent?_of_no_mark (h : ∀ c ∈ cs.head?, ¬(c = 'e' ∨ c = 'E')) :
    exponent? cs = some (none, cs) := by
  cases cs with
  | nil => rfl
  | cons c cs =>
    rw [exponent?.eq_def]
    exact if_neg (h c rfl)

theorem exponent?_split {e : Option (Bool × List Char)} (h : exponent? cs = some (e, rest)) :
    ∃ used, cs = used ++ rest ∧ ∀ more, Ends more → NoDigit (used ++ more) ∧
      (used ++ more).head? ≠ some '.' ∧ exponent? (used ++ more) = some (e, more) := by
  by_cases hmark : ∃ c ∈ cs.head?, c = 'e' ∨ c = 'E'
  · obtain ⟨c, hhead, hc⟩ := hmark
    obtain ⟨tail, rfl⟩ := List.head?_eq_some_iff.mp hhead
    obtain ⟨sign, negative, ds, hsign, hds, rfl, rfl⟩ := exists_signed hc h
    refine ⟨c :: (sign ++ ds), by simp, ?_⟩
    intro more hmore
    have hnext := exponent?_signed hc hsign hds hmore.noDigit
    refine ⟨?_, ?_, by simpa using hnext⟩
    · apply noDigit_cons
      rcases hc with rfl | rfl <;> rfl
    · rcases hc with rfl | rfl <;> simp
  · rw [exponent?_of_no_mark fun c hhead hc => hmark ⟨c, hhead, hc⟩] at h
    obtain ⟨rfl, rfl⟩ := Prod.mk.inj (Option.some.inj h)
    refine ⟨[], rfl, ?_⟩
    intro more hmore
    refine ⟨hmore.noDigit, fun hpoint => (hmore '.' hpoint).2 (by decide), ?_⟩
    apply exponent?_of_no_mark
    rintro c hhead (rfl | rfl)
    · exact (hmore 'e' hhead).2 (by decide)
    · exact (hmore 'E' hhead).2 (by decide)

end Stages

/-- Splits off a numeral after its sign. -/
def unsigned? (negative : Bool) (cs : List Char) : Option (Numeral × List Char) := do
  let (whole, cs) ← whole? cs
  let (fraction, cs) ← fraction? cs
  let (exponent, cs) ← exponent? cs
  return (⟨negative, whole, fraction, exponent⟩, cs)

theorem scan?_minus (cs : List Char) : scan? ('-' :: cs) = unsigned? true cs := rfl

theorem scan?_of_ne_minus {cs : List Char} (h : cs.head? ≠ some '-') :
    scan? cs = unsigned? false cs := by
  cases cs with
  | nil => rfl
  | cons c cs =>
    have hc : c ≠ '-' := fun heq => h (congrArg some heq)
    simp [scan?, unsigned?, hc]

theorem unsigned?_split {negative : Bool} {cs rest : List Char} {n : Numeral}
    (h : unsigned? negative cs = some (n, rest)) :
    ∃ d used, cs = d :: (used ++ rest) ∧ d.isDigit ∧
      ∀ more, Ends more → unsigned? negative (d :: (used ++ more)) = some (n, more) := by
  simp only [unsigned?, Option.bind_eq_bind, Option.bind_eq_some_iff, Option.pure_def,
    Option.some.injEq, Prod.mk.injEq] at h
  obtain ⟨⟨whole, afterWhole⟩, hwhole, ⟨fraction, afterFraction⟩, hfraction,
    ⟨exponent, behind⟩, hexponent, rfl, rfl⟩ := h
  obtain ⟨rfl, hdigits, extendWhole⟩ := whole?_split hwhole
  obtain ⟨point, hpoint, extendFraction⟩ := fraction?_split hfraction
  obtain ⟨mark, hmark, extendExponent⟩ := exponent?_split hexponent
  obtain ⟨d, ds, rfl⟩ := List.exists_cons_of_ne_nil hdigits.ne_nil
  simp only at hpoint hmark
  refine ⟨d, ds ++ (point ++ mark), by simp [hpoint, hmark],
    hdigits.digits d (List.mem_cons_self ..), ?_⟩
  intro more hmore
  obtain ⟨hdigit, hnopoint, hexponent⟩ := extendExponent more hmore
  obtain ⟨hdigit', hfraction⟩ := extendFraction _ hdigit hnopoint
  have hwhole := extendWhole _ hdigit'
  simp only [List.cons_append, List.append_assoc] at hwhole ⊢
  simp [unsigned?, hwhole, hfraction, hexponent]

/-- A numeral begins with its sign or a digit, and is scanned before whatever ends it. -/
theorem scan?_split {cs rest : List Char} {n : Numeral} (h : scan? cs = some (n, rest)) :
    ∃ c used, cs = c :: (used ++ rest) ∧ (c = '-' ∨ c.isDigit) ∧
      ∀ more, Ends more → scan? (c :: (used ++ more)) = some (n, more) := by
  by_cases hminus : cs.head? = some '-'
  · obtain ⟨cs, rfl⟩ := List.head?_eq_some_iff.mp hminus
    rw [scan?_minus] at h
    obtain ⟨d, used, rfl, -, hmore⟩ := unsigned?_split h
    exact ⟨'-', d :: used, rfl, .inl rfl, hmore⟩
  · rw [scan?_of_ne_minus hminus] at h
    obtain ⟨d, used, rfl, hdigit, hmore⟩ := unsigned?_split h
    refine ⟨d, used, rfl, .inr hdigit, ?_⟩
    intro more hends
    rw [scan?_of_ne_minus (by simpa using hminus)]
    exact hmore more hends

end Numeral

namespace JsonText

/-! ## Strings -/

theorem Takes.split {head tail rest : List Char} {p : Piece} {found : List Piece}
    (h : Takes head p) (htail : ∃ used, tail = used ++ rest ∧
      ∀ more, pieces? (used ++ more) = some (found, more)) :
    ∃ used, head ++ tail = used ++ rest ∧
      ∀ more, pieces? (used ++ more) = some (p :: found, more) := by
  obtain ⟨used, rfl, hused⟩ := htail
  refine ⟨head ++ used, (List.append_assoc ..).symm, ?_⟩
  intro more
  rw [List.append_assoc, h, hused]
  rfl

theorem pieces?_split {cs rest : List Char} {ps : List Piece} (h : pieces? cs = some (ps, rest)) :
    ∃ used, cs = used ++ rest ∧ ∀ more, pieces? (used ++ more) = some (ps, more) := by
  fun_induction pieces? cs generalizing ps with
  | case1 => contradiction
  | case2 behind =>
    obtain ⟨rfl, rfl⟩ := Prod.mk.inj (Option.some.inj h)
    exact ⟨['"'], rfl, fun more => rfl⟩
  | case3 a b c d tail ih =>
    obtain ⟨n, hn, h⟩ := Option.bind_eq_some_iff.mp h
    obtain ⟨found, htail, rfl⟩ := wrapped_eq_some.mp h
    exact (takes_unit hn).split (ih htail)
  | case4 e tail _ ih =>
    -- An escape that is cut short has no meaning, so `e` is not the mark of a unit.
    obtain ⟨c, hc, h⟩ := Option.bind_eq_some_iff.mp h
    obtain ⟨found, htail, rfl⟩ := wrapped_eq_some.mp h
    exact (takes_short hc).split (ih htail)
  | case5 => contradiction
  | case6 c tail hquote _ _ hplain ih =>
    obtain ⟨found, htail, rfl⟩ := wrapped_eq_some.mp h
    obtain ⟨hcontrol, hbackslash⟩ := not_or.mp hplain
    exact (takes_self hquote hbackslash hcontrol).split (ih htail)

theorem read?_split {cs rest : List Char} {s : String} (h : read? cs = some (s, rest)) :
    ∃ used, cs = used ++ rest ∧ ∀ more, read? (used ++ more) = some (s, more) := by
  simp only [read?, Option.bind_eq_bind, Option.bind_eq_some_iff, Option.pure_def,
    Option.some.injEq, Prod.mk.injEq] at h
  obtain ⟨⟨ps, behind⟩, hpieces, joined, hjoin, rfl, rfl⟩ := h
  obtain ⟨used, hused, hmore⟩ := pieces?_split hpieces
  refine ⟨used, hused, ?_⟩
  intro more
  simp [read?, hmore, hjoin]

end JsonText

namespace Json

/-! ## Blanks -/

section Blanks

variable {cs tail : List Char} {c : Char}

/-- A blank of JSON. -/
def isBlank (c : Char) : Bool := c = ' ' ∨ c = '\n' ∨ c = '\t' ∨ c = '\r'

theorem skipBlanks_eq (cs : List Char) : skipBlanks cs = cs.dropWhile isBlank := rfl

theorem not_isBlank_of_skipBlanks (h : skipBlanks cs = c :: tail) : isBlank c = false := by
  have hhead := List.head?_dropWhile_not isBlank cs
  rw [← skipBlanks_eq, h] at hhead
  exact hhead

/-- Behind the blanks the text goes on, whatever follows its first character. -/
theorem skipBlanks_split (h : skipBlanks cs = c :: tail) :
    ∃ blanks, cs = blanks ++ c :: tail ∧ ∀ more, skipBlanks (blanks ++ c :: more) = c :: more := by
  have hc := not_isBlank_of_skipBlanks h
  have hblanks : ∀ b ∈ cs.takeWhile isBlank, isBlank b := fun b => List.mem_takeWhile_imp
  refine ⟨cs.takeWhile isBlank, ?_, ?_⟩
  · rw [← h, skipBlanks_eq, List.takeWhile_append_dropWhile]
  · intro more
    rw [skipBlanks_eq, List.dropWhile_append_of_pos hblanks, List.dropWhile_cons_of_neg]
    rw [hc]
    exact Bool.false_ne_true

theorem skipBlanks_skipBlanks (cs : List Char) : skipBlanks (skipBlanks cs) = skipBlanks cs := by
  cases h : skipBlanks cs with
  | nil => rfl
  | cons c tail =>
    rw [skipBlanks_eq, List.dropWhile_cons_of_neg]
    rw [not_isBlank_of_skipBlanks h]
    exact Bool.false_ne_true

/-- A numeral is ended by the punctuation of an array or an object and by blanks before it. -/
theorem ends_of_skipBlanks (h : skipBlanks cs = c :: tail) (hc : c ∈ [']', '}', ',']) :
    Numeral.Ends cs := by
  intro d hd
  obtain ⟨behind, rfl⟩ := List.head?_eq_some_iff.mp hd
  by_cases hblank : isBlank d
  · simp only [isBlank, decide_eq_true_eq] at hblank
    rcases hblank with rfl | rfl | rfl | rfl <;> decide
  · rw [skipBlanks_eq, List.dropWhile_cons_of_neg hblank] at h
    obtain ⟨rfl, -⟩ := List.cons.inj h
    simp only [List.mem_cons, List.not_mem_nil, or_false] at hc
    rcases hc with rfl | rfl | rfl <;> decide

end Blanks

/-! ## One step of the reader -/

/-- The blanks, and the characters with which the documents begin that are no numbers. -/
def noNumeralHeads : List Char := [' ', '\n', '\t', '\r', 'n', 't', 'f', '"', '[', '{']

theorem not_mem_noNumeralHeads {c : Char} (h : c = '-' ∨ c.isDigit) : c ∉ noNumeralHeads := by
  have hheads : noNumeralHeads.all (fun c => !(c = '-' || c.isDigit)) = true := by decide
  intro hmem
  have hhead := List.all_eq_true.mp hheads c hmem
  rcases h with rfl | h
  · contradiction
  · rw [h, Bool.or_true] at hhead
    contradiction

/-- How a document goes on behind its blanks. -/
inductive Begins (depth fuel : ℕ) : List Char → Json → List Char → Prop where
  | null {rest} : Begins depth fuel ('n' :: 'u' :: 'l' :: 'l' :: rest) .null rest
  | yes {rest} : Begins depth fuel ('t' :: 'r' :: 'u' :: 'e' :: rest) (.boolean true) rest
  | no {rest} : Begins depth fuel ('f' :: 'a' :: 'l' :: 's' :: 'e' :: rest) (.boolean false) rest
  | text {cs s rest} (h : JsonText.read? cs = some (s, rest)) :
      Begins depth fuel ('"' :: cs) (.text s) rest
  | noItems {cs rest} (hdepth : 1 < depth) (h : skipBlanks cs = ']' :: rest) :
      Begins depth fuel ('[' :: cs) (.array []) rest
  | items {cs found rest} (hdepth : 1 < depth)
      (h : items? (depth - 1) fuel cs = some (found, rest)) :
      Begins depth fuel ('[' :: cs) (.array found) rest
  | noFields {cs rest} (hdepth : 1 < depth) (h : skipBlanks cs = '}' :: rest) :
      Begins depth fuel ('{' :: cs) (.object []) rest
  | fields {cs found rest} (hdepth : 1 < depth)
      (h : fields? (depth - 1) fuel cs = some (found, rest)) :
      Begins depth fuel ('{' :: cs) (.object found) rest
  | number {cs numeral n rest} (hscan : Numeral.scan? cs = some (numeral, rest))
      (hvalue : numeral.value? = some n) : Begins depth fuel cs (.number n) rest

section Step

variable {depth fuel : ℕ} {cs rest : List Char}

theorem document?_skipBlanks : document? depth fuel (skipBlanks cs) = document? depth fuel cs := by
  cases fuel with
  | zero => rfl
  | succ fuel => rw [document?, document?, skipBlanks_skipBlanks]

theorem items?_skipBlanks : items? depth fuel (skipBlanks cs) = items? depth fuel cs := by
  cases fuel with
  | zero => rfl
  | succ fuel => rw [items?, items?, document?_skipBlanks]

theorem fields?_skipBlanks : fields? depth fuel (skipBlanks cs) = fields? depth fuel cs := by
  cases fuel with
  | zero => rfl
  | succ fuel => rw [fields?, fields?, skipBlanks_skipBlanks]

theorem document?_of_close : document? depth fuel (']' :: rest) = none := by
  cases fuel with
  | zero => rfl
  | succ fuel => simp [document?, skipBlanks, Numeral.scan?, Numeral.whole?, Numeral.digits?]

theorem items?_of_close (h : skipBlanks cs = ']' :: rest) : items? depth fuel cs = none := by
  rw [← items?_skipBlanks, h]
  cases fuel with
  | zero => rfl
  | succ fuel =>
    rw [items?, document?_of_close]
    rfl

theorem fields?_of_close (h : skipBlanks cs = '}' :: rest) : fields? depth fuel cs = none := by
  cases fuel with
  | zero => rfl
  | succ fuel => simp [fields?, h]

theorem begins_of_document? {d : Json} (h : document? depth (fuel + 1) cs = some (d, rest)) :
    Begins depth fuel (skipBlanks cs) d rest := by
  rw [document?] at h
  generalize skipBlanks cs = body at h ⊢
  split at h
  case h_1 =>
    obtain ⟨rfl, rfl⟩ := Prod.mk.inj (Option.some.inj h)
    exact .null
  case h_2 =>
    obtain ⟨rfl, rfl⟩ := Prod.mk.inj (Option.some.inj h)
    exact .yes
  case h_3 =>
    obtain ⟨rfl, rfl⟩ := Prod.mk.inj (Option.some.inj h)
    exact .no
  case h_4 =>
    obtain ⟨s, hread, rfl⟩ := wrapped_eq_some.mp h
    exact .text hread
  case h_5 =>
    split at h
    case isTrue => contradiction
    case isFalse hdepth =>
      split at h
      case h_1 hclose =>
        obtain ⟨rfl, rfl⟩ := Prod.mk.inj (Option.some.inj h)
        exact .noItems (not_le.mp hdepth) hclose
      case h_2 =>
        obtain ⟨found, hitems, rfl⟩ := wrapped_eq_some.mp h
        rw [items?_skipBlanks] at hitems
        exact .items (not_le.mp hdepth) hitems
  case h_6 =>
    split at h
    case isTrue => contradiction
    case isFalse hdepth =>
      split at h
      case h_1 hclose =>
        obtain ⟨rfl, rfl⟩ := Prod.mk.inj (Option.some.inj h)
        exact .noFields (not_le.mp hdepth) hclose
      case h_2 =>
        obtain ⟨found, hfields, rfl⟩ := wrapped_eq_some.mp h
        rw [fields?_skipBlanks] at hfields
        exact .fields (not_le.mp hdepth) hfields
  case h_7 =>
    simp only [Option.bind_eq_bind, Option.bind_eq_some_iff, Option.pure_def,
      Option.some.injEq, Prod.mk.injEq] at h
    obtain ⟨⟨numeral, behind⟩, hscan, n, hvalue, rfl, rfl⟩ := h
    exact .number hscan hvalue

theorem document?_of_begins {d : Json} (h : Begins depth fuel (skipBlanks cs) d rest) :
    document? depth (fuel + 1) cs = some (d, rest) := by
  rw [document?]
  generalize skipBlanks cs = body at h ⊢
  cases h with
  | null => rfl
  | yes => rfl
  | no => rfl
  | text h => simp [h]
  | noItems hdepth h => simp [h, hdepth]
  | noFields hdepth h => simp [h, hdepth]
  | @items cs found _ hdepth h =>
    -- A closing bracket begins no item, so this is not the empty array.
    simp only [if_neg (not_le.mpr hdepth)]
    split
    case h_1 hclose =>
      rw [items?_of_close hclose] at h
      contradiction
    case h_2 =>
      rw [items?_skipBlanks, h]
      rfl
  | @fields cs found _ hdepth h =>
    simp only [if_neg (not_le.mpr hdepth)]
    split
    case h_1 hclose =>
      rw [fields?_of_close hclose] at h
      contradiction
    case h_2 =>
      rw [fields?_skipBlanks, h]
      rfl
  | number hscan hvalue =>
    obtain ⟨c, used, rfl, hc, -⟩ := Numeral.scan?_split hscan
    have hhead := not_mem_noNumeralHeads hc
    simp only [noNumeralHeads, List.mem_cons, List.not_mem_nil, or_false, not_or] at hhead
    simp [hhead, hscan, hvalue]

end Step

/-! ## Items between commas -/

section Sequence

variable {α : Type} {one : ℕ → List Char → Option (α × List Char)}
  {many : ℕ → List Char → Option (List α × List Char)} {after : α → List Char → Prop}
  {close : Char} {fuel : ℕ}

/-- What is read with some fuel is a beginning of the text, and with more fuel than that has
characters it is read in front of every text that may come after it. -/
def Local (read : ℕ → List Char → Option (α × List Char)) (after : α → List Char → Prop)
    (fuel : ℕ) : Prop :=
  ∀ ⦃cs a rest⦄, read fuel cs = some (a, rest) → ∃ used, cs = used ++ rest ∧
    ∀ fuel' more, used.length < fuel' → after a more → read fuel' (used ++ more) = some (a, more)

/-- What may come after something that marks its end itself. -/
def AnyText {α : Type} (_ : α) (_ : List Char) : Prop := True

/-- Many items are one, and the closing character behind it or a comma and many items. -/
def IsSequence (close : Char) (one : ℕ → List Char → Option (α × List Char))
    (many : ℕ → List Char → Option (List α × List Char)) : Prop :=
  ∀ fuel cs found rest, many (fuel + 1) cs = some (found, rest) ↔
    ∃ a behind, one fuel cs = some (a, behind) ∧
      (skipBlanks behind = close :: rest ∧ found = [a] ∨
        ∃ next others, skipBlanks behind = ',' :: next ∧ many fuel next = some (others, rest) ∧
          found = a :: others)

theorem IsSequence.localMany (h : IsSequence close one many) (hclose : close ∈ [']', '}', ','])
    (hafter : ∀ a more, Numeral.Ends more → after a more) (hone : Local one after fuel)
    (hmany : Local many AnyText fuel) : Local many AnyText (fuel + 1) := by
  intro cs found rest hread
  obtain ⟨a, behind, ha, hbehind⟩ := (h ..).mp hread
  obtain ⟨used, rfl, extend⟩ := hone ha
  rcases hbehind with ⟨hlast, rfl⟩ | ⟨next, others, hcomma, hothers, rfl⟩
  · obtain ⟨blanks, rfl, hblanks⟩ := skipBlanks_split hlast
    refine ⟨used ++ (blanks ++ [close]), by simp, ?_⟩
    intro fuel' more hfuel _
    obtain ⟨k, rfl⟩ : ∃ k, fuel' = k + 1 := ⟨fuel' - 1, by omega⟩
    simp only [List.length_append, List.length_singleton] at hfuel
    have hends := ends_of_skipBlanks (hblanks more) hclose
    have hitem := extend k _ (by omega) (hafter a _ hends)
    apply (h ..).mpr
    refine ⟨a, blanks ++ close :: more, ?_, .inl ⟨hblanks more, rfl⟩⟩
    rw [← hitem]
    simp
  · obtain ⟨blanks, rfl, hblanks⟩ := skipBlanks_split hcomma
    obtain ⟨usedNext, rfl, extendNext⟩ := hmany hothers
    refine ⟨used ++ (blanks ++ ',' :: usedNext), by simp, ?_⟩
    intro fuel' more hfuel _
    obtain ⟨k, rfl⟩ : ∃ k, fuel' = k + 1 := ⟨fuel' - 1, by omega⟩
    simp only [List.length_append, List.length_cons] at hfuel
    have hends := ends_of_skipBlanks (hblanks (usedNext ++ more)) (by decide)
    have hitem := extend k _ (by omega) (hafter a _ hends)
    apply (h ..).mpr
    refine ⟨a, blanks ++ ',' :: (usedNext ++ more), ?_, .inr ⟨usedNext ++ more, others,
      hblanks _, extendNext k more (by omega) trivial, rfl⟩⟩
    rw [← hitem]
    simp

end Sequence

section Fields

variable {depth fuel : ℕ}

/-- Splits off a name with its value. -/
def member? (depth fuel : ℕ) (cs : List Char) : Option ((String × Json) × List Char) :=
  match skipBlanks cs with
  | '"' :: rest => do
    let (name, rest) ← JsonText.read? rest
    match skipBlanks rest with
    | ':' :: rest => do
      let (value, rest) ← document? depth fuel rest
      return ((name, value), rest)
    | _ => none
  | _ => none

theorem member?_iff {cs rest : List Char} {name : String} {value : Json} :
    member? depth fuel cs = some ((name, value), rest) ↔
      ∃ next colon tail, skipBlanks cs = '"' :: next ∧ JsonText.read? next = some (name, colon) ∧
        skipBlanks colon = ':' :: tail ∧ document? depth fuel tail = some (value, rest) := by
  constructor
  · intro h
    rw [member?] at h
    split at h
    case h_2 => contradiction
    case h_1 next hquote =>
      obtain ⟨⟨name, colon⟩, hname, h⟩ := Option.bind_eq_some_iff.mp h
      simp only at h
      split at h
      case h_2 => contradiction
      case h_1 tail hcolon =>
        obtain ⟨_, hvalue, heq⟩ := wrapped_eq_some.mp h
        obtain ⟨rfl, rfl⟩ := Prod.mk.inj heq
        exact ⟨next, colon, tail, hquote, hname, hcolon, hvalue⟩
  · rintro ⟨next, colon, tail, hquote, hname, hcolon, hvalue⟩
    simp [member?, hquote, hname, hcolon, hvalue]

theorem isSequence_items (depth : ℕ) : IsSequence ']' (document? depth) (items? depth) := by
  intro fuel cs found rest
  rw [items?]
  constructor
  · intro h
    obtain ⟨⟨item, behind⟩, hitem, h⟩ := Option.bind_eq_some_iff.mp h
    refine ⟨item, behind, hitem, ?_⟩
    simp only at h
    split at h
    case h_1 hlast =>
      cases h
      exact .inl ⟨hlast, rfl⟩
    case h_2 next hcomma =>
      obtain ⟨others, hothers, rfl⟩ := wrapped_eq_some.mp h
      exact .inr ⟨next, others, hcomma, hothers, rfl⟩
    case h_3 => contradiction
  · rintro ⟨item, behind, hitem, ⟨hlast, rfl⟩ | ⟨next, others, hcomma, hothers, rfl⟩⟩
    · simp [hitem, hlast]
    · simp [hitem, hcomma, hothers]

theorem isSequence_fields (depth : ℕ) : IsSequence '}' (member? depth) (fields? depth) := by
  intro fuel cs found rest
  constructor
  · intro h
    rw [fields?] at h
    split at h
    case h_2 => contradiction
    case h_1 next hquote =>
      obtain ⟨⟨name, colon⟩, hname, h⟩ := Option.bind_eq_some_iff.mp h
      simp only at h
      split at h
      case h_2 => contradiction
      case h_1 tail hcolon =>
        obtain ⟨⟨value, behind⟩, hvalue, h⟩ := Option.bind_eq_some_iff.mp h
        refine ⟨(name, value), behind, ?_, ?_⟩
        · exact member?_iff.mpr ⟨next, colon, tail, hquote, hname, hcolon, hvalue⟩
        simp only at h
        split at h
        case h_1 hlast =>
          cases h
          exact .inl ⟨hlast, rfl⟩
        case h_2 following hcomma =>
          obtain ⟨others, hothers, rfl⟩ := wrapped_eq_some.mp h
          exact .inr ⟨following, others, hcomma, hothers, rfl⟩
        case h_3 => contradiction
  · rintro ⟨⟨name, value⟩, behind, hmember, hbehind⟩
    obtain ⟨next, colon, tail, hquote, hname, hcolon, hvalue⟩ := member?_iff.mp hmember
    rcases hbehind with ⟨hlast, rfl⟩ | ⟨following, others, hcomma, hothers, rfl⟩
    · simp [fields?, hquote, hname, hcolon, hvalue, hlast]
    · simp [fields?, hquote, hname, hcolon, hvalue, hcomma, hothers]

end Fields

/-! ## Documents -/

section Documents

variable {depth fuel : ℕ}

/-- What may come after a document: after a number no more of it, after all others anything. -/
def EndsDocument (d : Json) (more : List Char) : Prop := ∀ n, d = .number n → Numeral.Ends more

theorem localMember (h : Local (document? depth) EndsDocument fuel) :
    Local (member? depth) (fun field more => EndsDocument field.2 more) fuel := by
  rintro cs ⟨name, value⟩ rest hread
  obtain ⟨next, colon, tail, hquote, hname, hcolon, hvalue⟩ := member?_iff.mp hread
  obtain ⟨before, rfl, hbefore⟩ := skipBlanks_split hquote
  obtain ⟨usedName, rfl, extendName⟩ := JsonText.read?_split hname
  obtain ⟨blanks, rfl, hblanks⟩ := skipBlanks_split hcolon
  obtain ⟨used, rfl, extend⟩ := h hvalue
  refine ⟨before ++ '"' :: (usedName ++ (blanks ++ ':' :: used)), by simp, ?_⟩
  intro fuel' more hfuel hafter
  simp only [List.length_append, List.length_cons] at hfuel
  apply member?_iff.mpr
  refine ⟨usedName ++ (blanks ++ ':' :: (used ++ more)), blanks ++ ':' :: (used ++ more),
    used ++ more, ?_, extendName _, hblanks _, extend fuel' more (by omega) hafter⟩
  simpa using hbefore (usedName ++ (blanks ++ ':' :: (used ++ more)))

theorem Begins.local {body rest : List Char} {d : Json} (h : Begins depth fuel body d rest)
    (hitems : ∀ depth, Local (items? depth) AnyText fuel)
    (hfields : ∀ depth, Local (fields? depth) AnyText fuel) :
    ∃ c used, body = c :: (used ++ rest) ∧ ∀ fuel' more, used.length < fuel' →
      EndsDocument d more → Begins depth fuel' (c :: (used ++ more)) d more := by
  cases h with
  | null => exact ⟨'n', ['u', 'l', 'l'], rfl, fun _ _ _ _ => .null⟩
  | yes => exact ⟨'t', ['r', 'u', 'e'], rfl, fun _ _ _ _ => .yes⟩
  | no => exact ⟨'f', ['a', 'l', 's', 'e'], rfl, fun _ _ _ _ => .no⟩
  | text h =>
    obtain ⟨used, rfl, extend⟩ := JsonText.read?_split h
    exact ⟨'"', used, rfl, fun _ more _ _ => .text (extend more)⟩
  | noItems hdepth h =>
    obtain ⟨blanks, rfl, hblanks⟩ := skipBlanks_split h
    refine ⟨'[', blanks ++ [']'], by simp, ?_⟩
    intro fuel' more _ _
    exact .noItems hdepth (by simpa using hblanks more)
  | noFields hdepth h =>
    obtain ⟨blanks, rfl, hblanks⟩ := skipBlanks_split h
    refine ⟨'{', blanks ++ ['}'], by simp, ?_⟩
    intro fuel' more _ _
    exact .noFields hdepth (by simpa using hblanks more)
  | items hdepth h =>
    obtain ⟨used, rfl, extend⟩ := hitems _ h
    refine ⟨'[', used, rfl, ?_⟩
    intro fuel' more hfuel _
    exact .items hdepth (extend fuel' more hfuel trivial)
  | fields hdepth h =>
    obtain ⟨used, rfl, extend⟩ := hfields _ h
    refine ⟨'{', used, rfl, ?_⟩
    intro fuel' more hfuel _
    exact .fields hdepth (extend fuel' more hfuel trivial)
  | number hscan hvalue =>
    obtain ⟨c, used, rfl, -, extend⟩ := Numeral.scan?_split hscan
    refine ⟨c, used, rfl, ?_⟩
    intro fuel' more _ hafter
    exact .number (extend more (hafter _ rfl)) hvalue

theorem localDocument
    (hitems : ∀ depth, Local (items? depth) AnyText fuel)
    (hfields : ∀ depth, Local (fields? depth) AnyText fuel) :
    Local (document? depth) EndsDocument (fuel + 1) := by
  intro cs d rest hread
  obtain ⟨c, used, hbody, extend⟩ := (begins_of_document? hread).local hitems hfields
  obtain ⟨blanks, rfl, hblanks⟩ := skipBlanks_split hbody
  refine ⟨blanks ++ c :: used, by simp, ?_⟩
  intro fuel' more hfuel hafter
  obtain ⟨k, rfl⟩ : ∃ k, fuel' = k + 1 := ⟨fuel' - 1, by omega⟩
  simp only [List.length_append, List.length_cons] at hfuel
  rw [List.append_assoc, List.cons_append]
  apply document?_of_begins
  rw [hblanks]
  exact extend k more (by omega) hafter

/-- Documents, items and fields nest, so one more step of each needs the steps before of all. -/
theorem local_all (fuel : ℕ) : ∀ depth, Local (document? depth) EndsDocument fuel ∧
    Local (items? depth) AnyText fuel ∧
      Local (fields? depth) AnyText fuel := by
  induction fuel with
  | zero => exact fun depth => ⟨nofun, nofun, nofun⟩
  | succ fuel ih =>
    intro depth
    have hends : ∀ (d : Json) more, Numeral.Ends more → EndsDocument d more :=
      fun _ _ hmore _ _ => hmore
    refine ⟨?_, ?_, ?_⟩
    · exact localDocument (fun depth => (ih depth).2.1) fun depth => (ih depth).2.2
    · exact (isSequence_items depth).localMany (by decide) hends (ih depth).1 (ih depth).2.1
    · exact (isSequence_fields depth).localMany (by decide) (fun field => hends field.2)
        (localMember (ih depth).1) (ih depth).2.2

/-- The first document of a text is the first one of every text that begins with it. -/
theorem first?_split {cs rest : List Char} {d : Json} (h : first? cs = some (d, rest)) :
    ∃ used, cs = used ++ rest ∧
      ∀ more, EndsDocument d more → first? (used ++ more) = some (d, more) := by
  obtain ⟨used, rfl, extend⟩ := (local_all _ _).1 h
  refine ⟨used, rfl, ?_⟩
  intro more hmore
  apply extend _ more _ hmore
  rw [List.length_append]
  omega

end Documents

end Json

end ResumableFormulas
