import Ancestry.Text.Recogniser
import Mathlib.Data.List.Forall2

/-!
Spans: stretches of a text, given by their places. The items that a search finds stand in spans one
behind the other, and wherever the recogniser can read, there is one of these spans.
-/

namespace Ancestry.Text

/-- The stretch of a text from one place up to another. -/
structure Span where
  start : Nat
  stop : Nat

namespace Span

/-- The text of a span. -/
def inside (p : Span) (s : List Char) : List Char :=
  (s.drop p.start).take (p.stop - p.start)

/-- The text that follows a span. -/
def behind (p : Span) (s : List Char) : List Char :=
  s.drop p.stop

def Covers (p : Span) (place : Nat) : Prop :=
  p.start ≤ place ∧ place < p.stop

/-- The same stretch with a text of length `n` in front. -/
def shift (n : Nat) (p : Span) : Span :=
  ⟨n + p.start, n + p.stop⟩

@[simp] theorem inside_shift (front s : List Char) (p : Span) :
    (p.shift front.length).inside (front ++ s) = p.inside s := by
  rw [inside, shift, List.drop_length_add_append, Nat.add_sub_add_left, inside]

@[simp] theorem behind_shift (front s : List Char) (p : Span) :
    (p.shift front.length).behind (front ++ s) = p.behind s := by
  rw [behind, shift, List.drop_length_add_append, behind]

theorem covers_shift (n place : Nat) (p : Span) :
    (p.shift n).Covers (n + place) ↔ p.Covers place := by
  simp only [Covers, shift]
  omega

end Span

variable {α : Type} {P : α → List Char → List Char → Prop} {s : List Char} {items : List α}
  {spans : List Span}

/-- Items that stand in a text one behind the other, each in a span of its own. What an item has to
do with the text of its span and the text behind it is up to `P`. -/
structure Located (P : α → List Char → List Char → Prop) (s : List Char) (items : List α)
    (spans : List Span) : Prop where
  bounds : ∀ p ∈ spans, p.start < p.stop ∧ p.stop ≤ s.length
  apart : spans.Pairwise fun p q => p.stop ≤ q.start
  written : List.Forall₂ (fun a p => P a (p.inside s) (p.behind s)) items spans

namespace Located

theorem nil (s : List Char) : Located P s [] [] :=
  ⟨by simp, .nil, .nil⟩

theorem shift (h : Located P s items spans) (front : List Char) :
    Located P (front ++ s) items (spans.map (Span.shift front.length)) where
  bounds := by
    simp only [List.forall_mem_map, Span.shift, List.length_append]
    intro p hp
    have := h.bounds p hp
    omega
  apart := by
    refine List.pairwise_map.2 (h.apart.imp fun hpq => ?_)
    simpa [Span.shift] using hpq
  written := by
    simpa [List.forall₂_map_right_iff] using h.written

theorem cons {a : α} {taken rest : List Char} (h : Located P rest items spans)
    (ha : P a taken rest) (hn : taken ≠ []) :
    Located P (taken ++ rest) (a :: items)
      (⟨0, taken.length⟩ :: spans.map (Span.shift taken.length)) where
  bounds := by
    refine List.forall_mem_cons.2 ⟨⟨List.length_pos_iff.2 hn, ?_⟩, (h.shift taken).bounds⟩
    simp
  apart := by
    refine List.pairwise_cons.2 ⟨?_, (h.shift taken).apart⟩
    simp [Span.shift]
  written := by
    refine .cons ?_ (h.shift taken).written
    simpa [Span.inside, Span.behind] using ha

end Located

/-- The items of a text stand in spans, and every place where the recogniser can read belongs to one
of them. -/
theorem Recogniser.exists_located (r : Recogniser α)
    (h : ∀ {s a rest}, r.read s = some (a, rest) → ∃ taken, s = taken ++ rest ∧ P a taken rest)
    (s : List Char) :
    ∃ spans, Located P s (r.all s) spans ∧
      ∀ place, r.read (s.drop place) ≠ none → ∃ p ∈ spans, p.Covers place := by
  induction s using Recogniser.all.induct (r := r) with
  | case1 =>
    rw [r.all_nil]
    refine ⟨[], .nil [], fun place hr => ?_⟩
    rw [List.drop_nil] at hr
    exact absurd r.read_nil hr
  | case2 c s a rest hr ih =>
    obtain ⟨spans, hl, hc⟩ := ih
    obtain ⟨taken, hs, ha⟩ := h hr
    have hn : taken ≠ [] := by
      rintro rfl
      have := r.shrinks hr
      simp [hs] at this
    rw [r.all_of_read hr, hs]
    refine ⟨_, hl.cons ha hn, fun place hp => ?_⟩
    by_cases hlt : place < taken.length
    · exact ⟨_, List.mem_cons_self, Nat.zero_le place, hlt⟩
    · obtain ⟨k, rfl⟩ := Nat.exists_eq_add_of_le (Nat.le_of_not_lt hlt)
      rw [List.drop_length_add_append] at hp
      obtain ⟨p, hm, hk⟩ := hc k hp
      exact ⟨_, List.mem_cons_of_mem _ (List.mem_map_of_mem hm), (p.covers_shift _ k).2 hk⟩
  | case3 c s hr ih =>
    obtain ⟨spans, hl, hc⟩ := ih
    rw [r.all_cons_of_none hr]
    refine ⟨_, hl.shift [c], fun place hp => ?_⟩
    cases place with
    | zero => exact absurd hr hp
    | succ k =>
      obtain ⟨p, hm, hk⟩ := hc k hp
      rw [Nat.add_comm]
      exact ⟨_, List.mem_map_of_mem hm, (p.covers_shift 1 k).2 hk⟩

end Ancestry.Text
