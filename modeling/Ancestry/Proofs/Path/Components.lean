import Ancestry.Proofs.Path.Reading
import Mathlib.Data.List.Infix
import Mathlib.Data.List.TakeWhile

/-!
Components in a written path. A path that is written behind another one and a slash adds its
components to those of the other. A name stands between two slashes where it is a component above
the last.
-/

namespace Ancestry.Path

section
variable {s : String}

/-- Slashes alone name nothing. -/
theorem exists_mem_ne_slash (h : (ofString s).parts ≠ []) : ∃ c ∈ s.toList, c ≠ '/' := by
  by_contra! hs
  have hl : s.toList = List.replicate s.toList.length '/' := List.eq_replicate_of_mem hs
  have hp := splitOn_slashes s.toList.length []
  rw [List.append_nil, ← hl] at hp
  apply h
  simp [ofString, hp]

theorem parts_append (s r : String) :
    (ofString (s ++ "/" ++ r)).parts = (ofString s).parts ++ (ofString r).parts := by
  have hl : (s ++ "/" ++ r).toList = s.toList ++ '/' :: r.toList := by simp
  simp only [ofString, hl, List.splitOn_append_cons_self, List.map_append, List.filter_append]

theorem anchor_append (h : (ofString s).parts ≠ []) (r : String) :
    (ofString (s ++ "/" ++ r)).anchor = (ofString s).anchor := by
  obtain ⟨c, hc, hne⟩ := exists_mem_ne_slash h
  have hl : (s ++ "/" ++ r).toList = s.toList ++ '/' :: r.toList := by simp
  -- the slashes in front end within `s`, at `c` or before
  have ht : (s.toList.takeWhile (· = '/')).length ≠ s.toList.length := by
    intro he
    have hs := (List.takeWhile_prefix (· = '/')).eq_of_length he
    exact hne (by simpa using List.takeWhile_eq_self_iff.1 hs c hc)
  simp only [ofString, hl, List.takeWhile_append, if_neg ht]

/-- What is written behind a path of some components is found below it. -/
theorem ofString_append (h : (ofString s).parts ≠ []) (r : String) :
    ofString (s ++ "/" ++ r) =
      ⟨(ofString s).anchor, (ofString s).parts ++ (ofString r).parts⟩ := by
  rw [← anchor_append h r, ← parts_append]

end

section
variable {x part : String} {parts : List String}

theorem name_below (above : Path) (h : parts ≠ []) :
    Path.name ⟨above.anchor, above.parts ++ parts⟩ = Path.name ⟨.relative, parts⟩ := by
  simp [Path.name, List.getLast?_append_of_ne_nil _ h]

theorem name_mem (above : Path) (h : parts ≠ []) :
    Path.name ⟨above.anchor, above.parts ++ parts⟩ ∈ parts := by
  simp [Path.name, List.getLast?_append_of_ne_nil _ h, List.getLast?_eq_some_getLast h]

theorem toString_relative (h : parts ≠ []) :
    Path.toString ⟨.relative, parts⟩ = "/".intercalate parts := by
  simp [Path.toString, Anchor.text, h]

/-- The components, each behind a slash. -/
def slashed (parts : List String) : List Char :=
  parts.flatMap fun part => '/' :: part.toList

theorem slashed_cons (part : String) (parts : List String) :
    slashed (part :: parts) = '/' :: (part.toList ++ slashed parts) := by
  simp [slashed]

theorem slashed_eq (h : parts ≠ []) : slashed parts = '/' :: ("/".intercalate parts).toList := by
  rw [toList_intercalate]
  induction parts with
  | nil => exact absurd rfl h
  | cons part parts ih =>
    cases parts with
    | nil => simp [slashed]
    | cons next parts =>
      rw [slashed_cons, ih (by simp)]
      simp [List.intercalate_cons_cons]

theorem infix_append_of_not_mem {c : Char} {mark s : List Char} (h : c ∉ s) (t : List Char) :
    c :: mark <:+: s ++ t ↔ c :: mark <:+: t := by
  induction s with
  | nil => rfl
  | cons d s ih =>
    rw [List.mem_cons, not_or] at h
    rw [List.cons_append, List.infix_cons_iff, List.cons_prefix_cons, ih h.2]
    simp [h.1]

theorem takeWhile_slash {s : List Char} (h : '/' ∉ s) (t : List Char) :
    (s ++ '/' :: t).takeWhile (· ≠ '/') = s :=
  Text.takeWhile_stop (fun c hc => by simpa using ne_of_mem_of_not_mem hc h) (by simp)

/-- What ends in a slash at the start of a path is its first component, unless that is its last. -/
theorem prefix_slashed_iff (hx : '/' ∉ x.toList) (hp : '/' ∉ part.toList) :
    x.toList ++ ['/'] <+: part.toList ++ slashed parts ↔ x = part ∧ parts ≠ [] := by
  cases parts with
  | nil =>
    have hn : ¬ x.toList ++ ['/'] <+: part.toList := fun h => hp (h.subset (by simp))
    simpa [slashed] using hn
  | cons next parts =>
    rw [slashed_cons]
    constructor
    · rintro ⟨t, ht⟩
      rw [List.append_assoc, List.singleton_append] at ht
      have hw := congrArg (List.takeWhile (· ≠ '/')) ht
      rw [takeWhile_slash hx, takeWhile_slash hp] at hw
      exact ⟨String.toList_inj.1 hw, by simp⟩
    · rintro ⟨rfl, -⟩
      exact ⟨next.toList ++ slashed parts, by simp⟩

/-- A name stands between slashes where it is a component above the last. -/
theorem infix_slashed_iff (hx : '/' ∉ x.toList) (hp : ∀ part ∈ parts, '/' ∉ part.toList) :
    '/' :: (x.toList ++ ['/']) <:+: slashed parts ↔ x ∈ parts.dropLast := by
  induction parts with
  | nil => simp [slashed]
  | cons part parts ih =>
    obtain ⟨hpart, hp⟩ := List.forall_mem_cons.1 hp
    -- the first slash is that of `part`, and `part` has no other
    rw [slashed_cons, List.infix_cons_iff, List.cons_prefix_cons, prefix_slashed_iff hx hpart,
      infix_append_of_not_mem hpart, ih hp]
    cases parts with
    | nil => simp
    | cons next parts => simp

end
end Ancestry.Path
