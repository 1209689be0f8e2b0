import ResumableFormulas.Json.Text

/-! # Strings as written and as read

Every character is written as one piece, which stands for it alone: only surrogates would be joined
with a neighbour, and no escape that is written is one.
-/
namespace ResumableFormulas.JsonText

/-- A piece that is a character whatever comes after it. -/
def Stands (p : Piece) (c : Char) : Prop := ∀ ps, join? (p :: ps) = (join? ps).map (c :: ·)

theorem stands_character (c : Char) : Stands (.character c) c := fun _ => rfl

theorem stands_unit {c : Char} (h : c.toNat < 0x20) : Stands (.unit c.toNat) c := by
  intro ps
  rw [join?.eq_def]
  simp only
  rw [if_neg (by omega), if_neg (by omega), Char.ofNat_toNat]

theorem hexValue?_hexDigit : ∀ n < 16, hexValue? (hexDigit n) = some n := by decide

/-- The two zeros and the two digits of a control character are its unit. -/
theorem unit?_hexDigit {n : Nat} (h : n < 0x20) :
    unit? '0' '0' (hexDigit (n / 16)) (hexDigit (n % 16)) = some n := by
  have hhigh := hexValue?_hexDigit (n / 16) (by omega)
  have hlow := hexValue?_hexDigit (n % 16) (by omega)
  have hzero : hexValue? '0' = some 0 := by decide
  simp only [unit?, hhigh, hlow, hzero, Option.bind_eq_bind, Option.bind_some, Option.pure_def]
  congr 1
  omega

/-- Reading takes `cs` for one piece and goes on behind it. -/
def Takes (cs : List Char) (p : Piece) : Prop :=
  ∀ rest, pieces? (cs ++ rest) = (pieces? rest).map fun found => (p :: found.1, found.2)

theorem takes_short {e c : Char} (h : shortEscapes.lookup e = some c) :
    Takes ['\\', e] (.character c) := by
  have hunit : e ≠ 'u' := by
    rintro rfl
    contradiction
  intro rest
  cases hrest : pieces? rest <;> simp [pieces?, hrest, h, hunit]

theorem takes_unit {a b c d : Char} {n : Nat} (h : unit? a b c d = some n) :
    Takes ['\\', 'u', a, b, c, d] (.unit n) := by
  intro rest
  cases hrest : pieces? rest <;> simp [pieces?, hrest, h]

theorem takes_self {c : Char} (hquote : c ≠ '"') (hbackslash : c ≠ '\\') (h : ¬c.toNat < 0x20) :
    Takes [c] (.character c) := by
  intro rest
  cases hrest : pieces? rest <;> simp [pieces?, hrest, hbackslash, h]

/-- Reading `cs` yields a piece that stands for `c` and what `rest` yields. -/
def Yields (cs : List Char) (c : Char) : Prop := ∃ p, Stands p c ∧
  ∀ rest, pieces? (cs ++ rest) = (pieces? rest).map fun found => (p :: found.1, found.2)

theorem yields_short {e c : Char} (h : shortEscapes.lookup e = some c) : Yields ['\\', e] c :=
  ⟨.character c, stands_character c, takes_short h⟩

theorem yields_unit {c : Char} (h : c.toNat < 0x20) :
    Yields ['\\', 'u', '0', '0', hexDigit (c.toNat / 16), hexDigit (c.toNat % 16)] c :=
  ⟨.unit c.toNat, stands_unit h, takes_unit (unit?_hexDigit h)⟩

theorem yields_self {c : Char} (hquote : c ≠ '"') (hbackslash : c ≠ '\\') (h : ¬c.toNat < 0x20) :
    Yields [c] c :=
  ⟨.character c, stands_character c, takes_self hquote hbackslash h⟩

theorem yields_escape (c : Char) : Yields (escape c) c := by
  unfold escape
  split
  case h_8 hquote hbackslash _ _ _ _ _ =>
    split
    case isTrue hcontrol => exact yields_unit hcontrol
    case isFalse hplain => exact yields_self hquote hbackslash hplain
  all_goals exact yields_short (by decide)

/-- What is written of characters is read as pieces that are joined to them. -/
theorem pieces?_quoted (cs rest : List Char) :
    ∃ ps, pieces? (cs.flatMap escape ++ '"' :: rest) = some (ps, rest) ∧ join? ps = some cs := by
  induction cs with
  | nil => exact ⟨[], by simp [pieces?], rfl⟩
  | cons c cs ih =>
    obtain ⟨ps, hpieces, hjoin⟩ := ih
    obtain ⟨p, hstands, hread⟩ := yields_escape c
    refine ⟨p :: ps, ?_, ?_⟩
    · rw [List.flatMap_cons, List.append_assoc, hread, hpieces]
      rfl
    · rw [hstands, hjoin]
      rfl

/-- A string is read back from its text, whatever follows. -/
theorem read?_quoted (cs rest : List Char) :
    read? (cs.flatMap escape ++ '"' :: rest) = some (String.ofList cs, rest) := by
  obtain ⟨ps, hpieces, hjoin⟩ := pieces?_quoted cs rest
  simp [read?, hpieces, hjoin]

end ResumableFormulas.JsonText
