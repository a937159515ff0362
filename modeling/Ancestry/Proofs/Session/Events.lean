import Ancestry.Session.Basic

/-!
What an event does to a session: it drops what is kept of its file, changes how often the file stands
among the candidates, and edits the lists of importers.
-/

namespace Ancestry

namespace Importers

/-- What the lists undergo when a file was created or changed. -/
def refresh (strict : Bool) (path : String) : Importers → Importers :=
  if strict then clear else invalidate (componentName path)

/-- What they undergo when it was deleted. -/
def forget (path : String) : Importers → Importers :=
  removeFile path ∘ invalidate (componentName path)

def handle (strict : Bool) (kind : EventKind) (path : String) : Importers → Importers :=
  match kind with
  | .created | .changed => refresh strict path
  | .deleted => forget path

/-- An event leaves no list with more in it than before, and a deletion leaves its file in none. -/
theorem mem_of_mem_handle {strict : Bool} {kind : EventKind} {path name : String}
    {found : List String} {g : Importers}
    (hl : (g.handle strict kind path).lists.get? name = some found) :
    ∃ kept, g.lists.get? name = some kept ∧
      ∀ p ∈ found, p ∈ kept ∧ (kind = .deleted → p ≠ path) := by
  have hrefresh : (g.refresh strict path).lists.get? name = some found →
      g.lists.get? name = some found := by
    unfold refresh
    split
    · intro h
      simp [clear] at h
    · intro h
      simp only [invalidate, Table.get?_erase] at h
      split at h
      · cases h
      · exact h
  cases kind with
  | created => exact ⟨found, hrefresh hl, fun p hp => ⟨hp, nofun⟩⟩
  | changed => exact ⟨found, hrefresh hl, fun p hp => ⟨hp, nofun⟩⟩
  | deleted =>
    simp only [handle, forget, Function.comp_apply, removeFile, invalidate, Table.get?_mapValues,
      Table.get?_erase] at hl
    split at hl
    · cases hl
    · obtain ⟨kept, hk, rfl⟩ := Option.map_eq_some_iff.1 hl
      refine ⟨kept, hk, fun p hp => ?_⟩
      obtain ⟨hp, hne⟩ := List.mem_filter.1 hp
      exact ⟨hp, fun _ => by simpa using hne⟩

end Importers

/-- How often a file stands among the candidates after an event of it, where it stood there `n` times
before. -/
def EventKind.count (kind : EventKind) (n : Nat) : Nat :=
  match kind with
  | .created => max n 1
  | .changed => n
  | .deleted => n - 1

namespace Session

theorem refreshFile_eq (path : String) (s : Session) :
    s.refreshFile path = { s with
      contents := s.contents.invalidate path
      importers := s.importers.refresh s.strict path } := by
  have hs : (s.invalidateFile path).strict = s.strict := rfl
  unfold refreshFile Importers.refresh
  simp only [hs]
  split <;> rfl

/-- An event changes the candidates by its file alone and each cache on its own. -/
theorem handle_eq (kind : EventKind) (path : String) (s : Session) :
    s.handle kind path = { s with
      candidates := (s.handle kind path).candidates
      contents := s.contents.invalidate path
      importers := s.importers.handle s.strict kind path } := by
  cases kind with
  | created =>
    simp only [handle, onCreate]
    split <;> rw [refreshFile_eq] <;> rfl
  | changed => rw [handle, onChange, refreshFile_eq]; rfl
  | deleted => rfl

theorem candidates_onCreate (path : String) (s : Session) :
    (s.onCreate path).candidates =
      if path ∈ s.candidates then s.candidates else s.candidates ++ [path] := by
  rw [onCreate, refreshFile_eq]
  split <;> rfl

theorem count_handle (kind : EventKind) (path : String) (s : Session) (p : String) :
    (s.handle kind path).candidates.count p =
      if p = path then kind.count (s.candidates.count p) else s.candidates.count p := by
  cases kind with
  | created =>
    rw [handle, candidates_onCreate]
    by_cases hm : path ∈ s.candidates
    · have hc := List.count_pos_iff.2 hm
      by_cases hp : p = path
      · rw [if_pos hm, if_pos hp, hp, EventKind.count]
        omega
      · rw [if_pos hm, if_neg hp]
    · have hc := List.count_eq_zero.2 hm
      by_cases hp : p = path
      · simp [hm, hp, hc, EventKind.count]
      · simp [hm, hp, Ne.symm hp]
  | changed =>
    rw [handle, onChange, refreshFile_eq]
    simp [EventKind.count]
  | deleted =>
    simp only [handle, onDelete, EventKind.count]
    by_cases hp : p = path
    · rw [if_pos hp, hp]
      exact List.count_erase_self
    · rw [if_neg hp]
      exact List.count_erase_of_ne hp

theorem mem_handle_of_ne {kind : EventKind} {path p : String} {s : Session} (hp : p ≠ path) :
    p ∈ (s.handle kind path).candidates ↔ p ∈ s.candidates := by
  rw [← List.count_pos_iff, count_handle, if_neg hp, List.count_pos_iff]

end Session
end Ancestry
