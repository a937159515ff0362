import Ancestry.Record
import Ancestry.Session.Basic

/-!
The search for the ancestors of a component that provide values: every file that imports the
component, every file that imports one of those, and so on. Each file is visited once, depth first,
and reported if it has provide calls.

This search visits one file after another, and stands for all searches: those in flight visit the
importers of a file side by side, and report the same files in an order of their own. What they count
is their own as well, since two of them may look for the importers of one component at once.

The search ends because it only meets files that are known at its start: the candidates and the
members of the lists of importers that are kept.
-/

namespace Ancestry
namespace Session

/-- The record of a visited file. -/
def recordOf (path : String) (calls : List String) : Record :=
  ⟨(Path.ofString path).name, path, calls⟩

/-- Whether all files that a search can meet are among `known`. -/
structure Within (known : List String) (s : Session) : Prop where
  candidates : ∀ p ∈ s.candidates, p ∈ known
  lists : ∀ e ∈ s.importers.lists.entries, ∀ p ∈ e.2, p ∈ known

/-- The files that a search can meet. -/
def known (s : Session) : List String :=
  s.candidates ++ s.importers.lists.entries.flatMap (·.2)

theorem within_known (s : Session) : s.Within s.known where
  candidates p hp := by simp [known, hp]
  lists e he p hp := by
    simp only [known, List.mem_append, List.mem_flatMap]
    exact .inr ⟨e, he, hp⟩

theorem mem_of_mem_importersAmong (files : Files) (name : String) (paths : List String)
    (c : Contents) : ∀ p ∈ (importersAmong files name paths c).1, p ∈ paths := by
  induction paths generalizing c with
  | nil => simp [importersAmong]
  | cons q paths ih =>
    intro p hp
    simp only [importersAmong] at hp
    split at hp
    · rcases List.mem_cons.1 hp with rfl | hp
      · simp
      · exact List.mem_cons_of_mem _ (ih _ p hp)
    · exact List.mem_cons_of_mem _ (ih _ p hp)

theorem Within.importersOf {known : List String} {s : Session} (h : s.Within known)
    (files : Files) (name : String) :
    (∀ p ∈ (s.importersOf files name).1, p ∈ known) ∧
      (s.importersOf files name).2.Within known := by
  unfold Session.importersOf
  split
  · rename_i found hf
    exact ⟨h.lists _ (Table.mem_of_get? hf), h.candidates, h.lists⟩
  · have hin : ∀ p ∈ (importersAmong files name s.candidates s.contents).1, p ∈ known :=
      fun p hp => h.candidates p (mem_of_mem_importersAmong files name _ _ p hp)
    simp only [Importers.settle, Importers.countMiss, if_true]
    refine ⟨hin, h.candidates, ?_⟩
    intro e he p hp
    simp only [Table.insert, Table.erase, List.mem_cons, List.mem_filter] at he
    rcases he with rfl | he
    · exact hin p hp
    · exact h.lists e he.1 p hp

theorem Within.provides {known : List String} {s : Session} (h : s.Within known)
    (files : Files) (path : String) : (s.provides files path).2.Within known :=
  ⟨h.candidates, h.lists⟩

/-- Visits the files of `pending` and all that they lead to. `visited` holds the files met before,
`records` those reported. -/
def visitAll (files : Files) (known visited : List String) (records : List Record)
    (pending : List String) (s : Session) (hs : s.Within known) (hp : ∀ p ∈ pending, p ∈ known) :
    List Record × Session :=
  match pending with
  | [] => (records, s)
  | path :: rest =>
    if path ∈ visited then
      visitAll files known visited records rest s hs fun p h => hp p (List.mem_cons_of_mem _ h)
    else
      let calls := (s.provides files path).1
      let records := if calls = [] then records else records ++ [recordOf path calls]
      let found := (s.provides files path).2.importersOf files (componentName path)
      have hf := (hs.provides files path).importersOf files (componentName path)
      visitAll files known (path :: visited) records (found.1 ++ rest) found.2 hf.2 fun p h =>
        (List.mem_append.1 h).elim (hf.1 p) fun h => hp p (List.mem_cons_of_mem _ h)
termination_by ((known.filter (· ∉ visited)).length, pending.length)
decreasing_by
  · simp only [Prod.lex_def]
    right
    simp
  · rename_i hv
    have hk : path ∈ known.filter (· ∉ visited) := by simp [hv, hp path (by simp)]
    have he : known.filter (· ∉ path :: visited) =
        (known.filter (· ∉ visited)).filter (· ≠ path) := by
      simp [List.filter_filter, not_or]
    have hlt : ((known.filter (· ∉ visited)).filter (· ≠ path)).length <
        (known.filter (· ∉ visited)).length := by
      apply List.length_filter_lt_length_iff_exists.2
      exact ⟨path, hk, by simp⟩
    rw [he]
    exact Prod.Lex.left _ _ hlt

/-- What each visit keeps, and each file that is left out, holds at the end, where no file is left. -/
theorem visitAll_keeps {files : Files} {known : List String}
    {motive : List String → List Record → List String → Session → Prop}
    (skip : ∀ {visited records path pending s}, path ∈ visited →
      motive visited records (path :: pending) s → motive visited records pending s)
    (visit : ∀ {visited records path pending s}, path ∉ visited →
      motive visited records (path :: pending) s →
      motive (path :: visited)
        (if (s.provides files path).1 = [] then records
          else records ++ [recordOf path (s.provides files path).1])
        (((s.provides files path).2.importersOf files (componentName path)).1 ++ pending)
        ((s.provides files path).2.importersOf files (componentName path)).2)
    {visited : List String} {records : List Record} {pending : List String} {s : Session}
    (hs : s.Within known) (hp : ∀ p ∈ pending, p ∈ known) (h : motive visited records pending s) :
    ∃ order, motive order (visitAll files known visited records pending s hs hp).1 []
      (visitAll files known visited records pending s hs hp).2 := by
  induction visited, records, pending, s, hs, hp using visitAll.induct files known with
  | case1 visited records s hs hp =>
    rw [visitAll]
    exact ⟨visited, h⟩
  | case2 visited records s hs path rest hp hv _ ih =>
    rw [visitAll, if_pos hv]
    exact ih (skip hv h)
  | case3 visited records s hs path rest hp hv calls records' found hf _ ih =>
    rw [visitAll, if_neg hv]
    exact ih (visit hv h)

/-- The ancestors of a component that provide values, in the order of their visits one after another. -/
def ancestors (files : Files) (name : String) (s : Session) : List Record × Session :=
  let found := s.importersOf files name
  have h := s.within_known.importersOf files name
  visitAll files s.known [] [] found.1 found.2 h.2 h.1

/-- The ancestors of the component that a file defines. Other files have none. -/
def ancestorsOfFile (files : Files) (path : String) (s : Session) : List Record × Session :=
  if s.isComponent path then s.ancestors files (componentName path) else ([], s)

end Session
end Ancestry
