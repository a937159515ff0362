import Ancestry.Proofs.Session.View
import Mathlib.Data.List.Nodup
import Mathlib.Tactic.Tauto

/-!
The search for ancestors finds exactly the files that can be reached: the importers of the component
and, with each file, the importers of the component that it defines. It reports those that provide
something, each of them once.

The importers are those that the session shows at the start. The search fills the caches on its way,
but no call changes what is shown, so the graph stays the same while it is walked.
-/

namespace Ancestry
namespace Session
variable {files : Files} {s₀ s t : Session} {name path : String}
variable {known visited pending : List String} {records : List Record}

/-- The files above a component: its importers, and the importers of every file above it. -/
inductive Reachable (files : Files) (s : Session) (name : String) : String → Prop
  | importer {p : String} (h : p ∈ s.shownImporters files name) : Reachable files s name p
  | above {p q : String} (hp : Reachable files s name p)
      (hq : q ∈ s.shownImporters files (componentName p)) : Reachable files s name q

/-- The records of those files that provide something. -/
def recordsOf (files : Files) (s : Session) (paths : List String) : List Record :=
  (paths.filter (s.contents.shownCalls files · ≠ [])).map fun p =>
    recordOf p (s.contents.shownCalls files p)

theorem mem_recordsOf {paths : List String} {r : Record} :
    r ∈ recordsOf files s paths ↔
      r.source ∈ paths ∧ s.contents.shownCalls files r.source ≠ [] ∧
        r = recordOf r.source (s.contents.shownCalls files r.source) := by
  simp only [recordsOf, List.mem_map, List.mem_filter, decide_eq_true_eq]
  constructor
  · rintro ⟨p, ⟨hp, hc⟩, rfl⟩
    exact ⟨hp, hc, rfl⟩
  · rintro ⟨hp, hc, hr⟩
    exact ⟨r.source, ⟨hp, hc⟩, hr.symm⟩

theorem sources_recordsOf (files : Files) (s : Session) (paths : List String) :
    (recordsOf files s paths).map Record.source =
      paths.filter (s.contents.shownCalls files · ≠ []) := by
  simp only [recordsOf, List.map_map]
  exact List.map_id _

theorem recordsOf_append (files : Files) (s : Session) (paths : List String) (path : String) :
    recordsOf files s (paths ++ [path]) =
      if s.contents.shownCalls files path = [] then recordsOf files s paths
      else recordsOf files s paths ++ [recordOf path (s.contents.shownCalls files path)] := by
  by_cases h : s.contents.shownCalls files path = [] <;> simp [recordsOf, h]

/-- A search from `name` on the way: what it visited and what it still has in front of it. All of it
can be reached, and whatever can be reached from visited files is visited or in front. -/
structure Searching (files : Files) (s₀ : Session) (name : String) (visited : List String)
    (records : List Record) (pending : List String) (s : Session) : Prop where
  alike : s₀.Alike files s
  nodup : visited.Nodup
  records_eq : records = recordsOf files s₀ visited.reverse
  sound : ∀ p, p ∈ visited ∨ p ∈ pending → Reachable files s₀ name p
  start : ∀ p ∈ s₀.shownImporters files name, p ∈ visited ∨ p ∈ pending
  closed : ∀ p ∈ visited, ∀ q ∈ s₀.shownImporters files (componentName p),
    q ∈ visited ∨ q ∈ pending

/-- A file that was visited before is left out. -/
theorem Searching.skip (h : Searching files s₀ name visited records (path :: pending) s)
    (hv : path ∈ visited) : Searching files s₀ name visited records pending s := by
  have hp : ∀ p, p ∈ visited ∨ p ∈ path :: pending → p ∈ visited ∨ p ∈ pending := by
    rintro p (hp | hp)
    · exact .inl hp
    · rcases List.mem_cons.1 hp with rfl | hp
      · exact .inl hv
      · exact .inr hp
  refine ⟨h.alike, h.nodup, h.records_eq, ?_, ?_, ?_⟩
  · intro p hp
    exact h.sound p (hp.imp_right (List.mem_cons_of_mem path))
  · intro p hi
    exact hp p (h.start p hi)
  · intro p hpv q hq
    exact hp q (h.closed p hpv q hq)

/-- A new file is looked up, and its importers come in front. -/
theorem Searching.visit (h : Searching files s₀ name visited records (path :: pending) s)
    (hv : path ∉ visited) :
    Searching files s₀ name (path :: visited)
      (if (s.provides files path).1 = [] then records
        else records ++ [recordOf path (s.provides files path).1])
      (((s.provides files path).2.importersOf files (componentName path)).1 ++ pending)
      ((s.provides files path).2.importersOf files (componentName path)).2 := by
  have hp := h.alike.trans (alike_provides files path s)
  have hc : (s.provides files path).1 = s₀.contents.shownCalls files path :=
    (Contents.provides_fst files path s.contents).trans (h.alike.contents.calls path)
  have hf : ((s.provides files path).2.importersOf files (componentName path)).1 =
      s₀.shownImporters files (componentName path) :=
    (importersOf_fst files _ _).trans (hp.importers _)
  have hr : Reachable files s₀ name path := h.sound path (.inr List.mem_cons_self)
  rw [hc, hf]
  refine ⟨hp.trans (alike_importersOf files _ _), List.nodup_cons.2 ⟨hv, h.nodup⟩, ?_, ?_, ?_, ?_⟩
  · rw [List.reverse_cons, recordsOf_append, h.records_eq]
  · intro p hp
    simp only [List.mem_cons, List.mem_append] at hp
    rcases hp with (rfl | hp) | hp | hp
    · exact hr
    · exact h.sound p (.inl hp)
    · exact .above hr hp
    · exact h.sound p (.inr (List.mem_cons_of_mem path hp))
  · intro p hi
    have := h.start p hi
    simp only [List.mem_cons, List.mem_append] at this ⊢
    tauto
  · intro p hpv q hq
    simp only [List.mem_cons, List.mem_append] at hpv ⊢
    rcases hpv with rfl | hpv
    · -- The importers of the new file are those that came in front.
      exact .inr (.inl hq)
    · have := h.closed p hpv q hq
      simp only [List.mem_cons] at this
      tauto

/-- A search that is on its way comes to an end with nothing left in front. -/
theorem Searching.visitAll (h : Searching files s₀ name visited records pending s)
    (hs : s.Within known) (hp : ∀ p ∈ pending, p ∈ known) :
    ∃ order, Searching files s₀ name order (visitAll files known visited records pending s hs hp).1
      [] (visitAll files known visited records pending s hs hp).2 :=
  visitAll_keeps (fun hv h => h.skip hv) (fun hv h => h.visit hv) hs hp h

/-- At its end a search has visited what can be reached. -/
theorem Searching.mem_iff (h : Searching files s₀ name visited records [] s) (p : String) :
    p ∈ visited ↔ Reachable files s₀ name p := by
  constructor
  · intro hp
    exact h.sound p (.inl hp)
  · intro hp
    induction hp with
    | importer hi => simpa using h.start _ hi
    | above _ hq ih => simpa using h.closed _ ih _ hq

theorem searching_importersOf (files : Files) (name : String) (s : Session) :
    Searching files s name [] [] (s.importersOf files name).1 (s.importersOf files name).2 := by
  rw [importersOf_fst]
  refine ⟨alike_importersOf files name s, List.nodup_nil, rfl, ?_, ?_, ?_⟩
  · rintro p (hp | hp)
    · simp at hp
    · exact .importer hp
  · exact fun p hp => .inr hp
  · intro p hp
    simp at hp

/-- The records are those of the reachable files, in the order in which they were visited. -/
theorem exists_visit_order (files : Files) (name : String) (s : Session) :
    ∃ order : List String, order.Nodup ∧ (∀ p, p ∈ order ↔ Reachable files s name p) ∧
      (s.ancestors files name).1 = recordsOf files s order := by
  have h := s.within_known.importersOf files name
  obtain ⟨order, ho⟩ := (searching_importersOf files name s).visitAll h.2 h.1
  refine ⟨order.reverse, List.nodup_reverse.2 ho.nodup, fun p => ?_, ho.records_eq⟩
  rw [List.mem_reverse]
  exact ho.mem_iff p

theorem nodup_sources (files : Files) (name : String) (s : Session) :
    ((s.ancestors files name).1.map Record.source).Nodup := by
  obtain ⟨order, hn, -, he⟩ := exists_visit_order files name s
  rw [he, sources_recordsOf]
  exact hn.filter _

/-- A search leaves what is shown as it is. -/
theorem alike_ancestors (files : Files) (name : String) (s : Session) :
    s.Alike files (s.ancestors files name).2 := by
  have h := s.within_known.importersOf files name
  obtain ⟨order, ho⟩ := (searching_importersOf files name s).visitAll h.2 h.1
  exact ho.alike

/-- Whatever the caches hold and however the imports run, in cycles, in diamonds or through files of
one name, the search reports the files above the component that provide something, no file twice. -/
theorem ancestors_iff_reachable (files : Files) (name : String) (s : Session) :
    ((s.ancestors files name).1.map Record.source).Nodup ∧
      ∀ r, r ∈ (s.ancestors files name).1 ↔
        Reachable files s name r.source ∧ s.contents.shownCalls files r.source ≠ [] ∧
          r.name = (Path.ofString r.source).name ∧
          r.provides = s.contents.shownCalls files r.source := by
  have h := s.within_known.importersOf files name
  obtain ⟨order, ho⟩ := (searching_importersOf files name s).visitAll h.2 h.1
  have he : (s.ancestors files name).1 = recordsOf files s order.reverse := ho.records_eq
  rw [he]
  constructor
  · rw [sources_recordsOf]
    exact (List.nodup_reverse.2 ho.nodup).filter _
  · intro r
    obtain ⟨n, source, provides⟩ := r
    simp only [mem_recordsOf, List.mem_reverse, ho.mem_iff, recordOf, Record.mk.injEq]
    tauto

end Session
end Ancestry
