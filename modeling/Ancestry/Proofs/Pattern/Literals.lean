import Ancestry.Pattern.Wildcard
import Mathlib.Data.List.Infix

/-!
Patterns of ordinary characters. Such a pattern matches itself only; with asterisks around, it matches
the texts in which it stands: at the end, at the start or anywhere.
-/

namespace Ancestry.Pattern
variable {s text : List Char}

theorem anySuffix_iff {test : List Char → Bool} {text : List Char} :
    anySuffix test text ↔ ∃ s, s <:+ text ∧ test s := by
  induction text with
  | nil => simp [anySuffix]
  | cons c text ih =>
    simp only [anySuffix, Bool.or_eq_true, ih, List.suffix_cons_iff, or_and_right, exists_or,
      exists_eq_left]

/-- Characters in front of other pieces are those that the text has in front. -/
theorem matchPieces_append (s text : List Char) (rest : List Piece) :
    matchPieces (s.map .char ++ rest) text ↔ ∃ t, text = s ++ t ∧ matchPieces rest t := by
  induction s generalizing text with
  | nil => simp
  | cons c s ih =>
    cases text with
    | nil => simp [matchPieces, firstThen]
    | cons d text => simp [matchPieces, firstThen, Piece.accepts, ih, @eq_comm _ c d, and_assoc]

theorem matchPieces_chars (s text : List Char) : matchPieces (s.map .char) text ↔ text = s := by
  have h := matchPieces_append s text []
  simpa [matchPieces] using h

theorem matchPieces_front (s text : List Char) :
    matchPieces (s.map .char ++ [.anything]) text ↔ s <+: text := by
  have ha : ∀ t, matchPieces [.anything] t := fun t =>
    anySuffix_iff.2 ⟨[], List.nil_suffix, rfl⟩
  simp only [matchPieces_append, ha, and_true]
  exact ⟨fun ⟨t, ht⟩ => ⟨t, ht.symm⟩, fun ⟨t, ht⟩ => ⟨t, ht.symm⟩⟩

theorem matchPieces_inside (s text : List Char) :
    matchPieces (.anything :: (s.map .char ++ [.anything])) text ↔ s <:+: text := by
  rw [matchPieces, anySuffix_iff, List.infix_iff_prefix_suffix]
  simp only [matchPieces_front, and_comm]

/-- Characters that stand for themselves in a name pattern. -/
def IsLiteral (c : Char) : Prop :=
  c ≠ '*' ∧ c ≠ '?' ∧ c ≠ '['

instance (c : Char) : Decidable (IsLiteral c) :=
  inferInstanceAs (Decidable (_ ∧ _ ∧ _))

theorem pieces_append (h : ∀ c ∈ s, IsLiteral c) (t : List Char) :
    pieces (s ++ t) = s.map .char ++ pieces t := by
  induction s with
  | nil => rfl
  | cons c s ih =>
    obtain ⟨⟨h₁, h₂, h₃⟩, h⟩ := List.forall_mem_cons.1 h
    rw [List.cons_append, pieces.eq_5 c (s ++ t) h₁ h₂ h₃, ih h, List.map_cons, List.cons_append]

theorem pieces_literal (h : ∀ c ∈ s, IsLiteral c) : pieces s = s.map .char := by
  have hp := pieces_append h []
  rwa [List.append_nil, pieces, List.append_nil] at hp

/-- A pattern of ordinary characters matches nothing but itself. -/
theorem nameMatches_literal {pattern : String} (h : ∀ c ∈ pattern.toList, IsLiteral c)
    (text : String) : nameMatches pattern text ↔ text = pattern := by
  rw [nameMatches_eq, pieces_literal h, matchPieces_chars, String.toList_inj]

/-- An asterisk in front leaves the end of a name to be fixed. -/
theorem matchesText_ending {ending : List Char} (h : ∀ c ∈ ending, IsLiteral c) :
    matchesText (pieces ('*' :: ending)) text ↔ ending <:+ text := by
  have hp : pieces ('*' :: ending) = .anything :: ending.map .char := by
    rw [pieces, pieces_literal h]
    cases ending <;> rfl
  rw [matchesText_eq, hp, matchPieces, anySuffix_iff]
  simp [matchPieces_chars]

theorem pieces_stars : pieces ['*', '*'] = [.anything] := by
  rw [pieces, pieces, pieces]

/-- Asterisks behind leave the start of a text to be fixed. -/
theorem matchesText_starting (h : ∀ c ∈ s, IsLiteral c) :
    matchesText (pieces (s ++ ['*', '*'])) text ↔ s <+: text := by
  rw [matchesText_eq, pieces_append h, pieces_stars, matchPieces_front]

/-- Asterisks on both sides leave open where it stands. -/
theorem matchesText_within (hs : s ≠ []) (h : ∀ c ∈ s, IsLiteral c) :
    matchesText (pieces ('*' :: '*' :: (s ++ ['*', '*']))) text ↔ s <:+: text := by
  have hp : pieces ('*' :: '*' :: (s ++ ['*', '*'])) =
      .anything :: (s.map .char ++ [.anything]) := by
    obtain ⟨c, s, rfl⟩ := List.exists_cons_of_ne_nil hs
    rw [pieces, pieces, pieces_append h, pieces_stars]
    rfl
  rw [matchesText_eq, hp, matchPieces_inside]

end Ancestry.Pattern
