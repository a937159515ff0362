import Ancestry.Proofs.Session.Reachability
import Mathlib.Data.List.Perm.Basic

/-!
Chains. Where no component on the way up has two importers, a search has one thing in hand at a time:
it climbs from file to file, there is one way to go, and the records come in the order of the climb.
-/

namespace Ancestry
namespace Session
variable {files : Files} {s : Session} {name path : String}
variable {visited looked names ahead : List String} {records : List Record}

theorem recordsOf_concat (files : Files) (s : Session) (paths paths' : List String) :
    recordsOf files s (paths ++ paths') = recordsOf files s paths ++ recordsOf files s paths' := by
  simp only [recordsOf, List.filter_append, List.map_append]

theorem recordsOf_cons (files : Files) (s : Session) (path : String) (paths : List String) :
    recordsOf files s (path :: paths) = recordsOf files s [path] ++ recordsOf files s paths :=
  recordsOf_concat files s [path] paths

theorem recordsOf_congr {files' : Files} {t : Session} {paths : List String}
    (h : ∀ p ∈ paths, t.contents.shownCalls files' p = s.contents.shownCalls files p) :
    recordsOf files' t paths = recordsOf files s paths := by
  have hf : paths.filter (t.contents.shownCalls files' · ≠ []) =
      paths.filter (s.contents.shownCalls files · ≠ []) :=
    List.filter_congr fun p hp => by rw [h p hp]
  rw [recordsOf, recordsOf, hf]
  exact List.map_congr_left fun p hp => by rw [h p (List.mem_filter.1 hp).1]

/-- What is reported of a file that was looked up. -/
theorem report_eq {calls : List String} (hc : calls = s.contents.shownCalls files path) :
    (if calls = [] then records else records ++ [recordOf path calls]) =
      records ++ recordsOf files s [path] := by
  rw [hc]
  by_cases hn : s.contents.shownCalls files path = [] <;> simp [recordsOf, hn]

/-- A component whose importers a search from `name` asks for. -/
def Sought (files : Files) (s : Session) (name n : String) : Prop :=
  n = name ∨ ∃ p, Reachable files s name p ∧ n = componentName p

theorem Sought.reachable {n : String} (h : Sought files s name n)
    (hp : path ∈ s.shownImporters files n) : Reachable files s name path := by
  rcases h with rfl | ⟨q, hq, rfl⟩
  · exact .importer hp
  · exact .above hq hp

/-- No component on the way up has two importers. -/
def Chain (files : Files) (s : Session) (name : String) : Prop :=
  ∀ n, Sought files s name n → (s.shownImporters files n).length ≤ 1

/-- The component at which a climb from `name` has arrived. The files are listed with the last one
first. -/
def top (name : String) : List String → String
  | [] => name
  | path :: _ => componentName path

/-- Each file imports the component of the file below it. -/
def Climbs (files : Files) (s : Session) (name : String) : List String → Prop
  | [] => True
  | path :: below => path ∈ s.shownImporters files (top name below) ∧ Climbs files s name below

theorem Climbs.sought (h : Climbs files s name visited) : Sought files s name (top name visited) := by
  induction visited with
  | nil => exact .inl rfl
  | cons path below ih => exact .inr ⟨path, (ih h.2).reachable h.1, rfl⟩

/-- There is one way up a chain. -/
theorem Climbs.eq_of_length (hc : Chain files s name) {visited' : List String}
    (h : Climbs files s name visited) (h' : Climbs files s name visited')
    (hn : visited.length = visited'.length) : visited = visited' := by
  induction visited generalizing visited' with
  | nil => exact (List.length_eq_zero_iff.1 hn.symm).symm
  | cons path below ih =>
    cases visited' with
    | nil => cases hn
    | cons path' below' =>
      obtain rfl := ih h.2 h'.2 (Nat.succ.inj hn)
      have hl := hc _ h.2.sought
      obtain ⟨q, hq⟩ : ∃ q, s.shownImporters files (top name below) = [q] :=
        List.length_eq_one_iff.1 (Nat.le_antisymm hl (List.length_pos_of_mem h.1))
      have hp := h.1
      have hp' := h'.1
      rw [hq, List.mem_singleton] at hp hp'
      rw [hp, hp']

/-- A search on its way up a chain. -/
structure Climbing (files : Files) (s : Session) (name : String) (visited : List String)
    (records : List Record) (looked names ahead : List String) : Prop where
  climbs : Climbs files s name visited
  reported : records ++ recordsOf files s looked = recordsOf files s visited.reverse
  single : looked.length + names.length + ahead.length ≤ 1
  looked : ∀ p ∈ looked, ∃ below, visited = p :: below
  names : ∀ n ∈ names, n = top name visited
  ahead : ∀ p ∈ ahead, p ∈ s.shownImporters files (top name visited)

namespace Climbing

theorem perm {looked' names' ahead' : List String}
    (h : Climbing files s name visited records looked names ahead) (hl : looked.Perm looked')
    (hn : names.Perm names') (ha : ahead.Perm ahead') :
    Climbing files s name visited records looked' names' ahead' := by
  have hs := h.single
  have hr := h.reported
  -- At most one file is looked up, so there is nothing to put into another order.
  have he : looked = looked' := by
    match looked with
    | [] => exact (List.nil_perm.1 hl).symm
    | [p] => exact List.singleton_perm.1 hl
    | p :: q :: rest =>
      simp only [List.length_cons] at hs
      omega
  subst he
  refine ⟨h.climbs, hr, ?_, h.looked, ?_, ?_⟩
  · rw [← hn.length_eq, ← ha.length_eq]
    exact hs
  · exact fun n hx => h.names n (hn.mem_iff.2 hx)
  · exact fun p hp => h.ahead p (ha.mem_iff.2 hp)

theorem begin (files : Files) (s : Session) (name : String) :
    Climbing files s name [] [] [] [name] [] :=
  ⟨trivial, rfl, Nat.le_refl 1, nofun, fun _ hn => List.mem_singleton.1 hn, nofun⟩

theorem skip (h : Climbing files s name visited records looked names (path :: ahead)) :
    Climbing files s name visited records looked names ahead := by
  refine ⟨h.climbs, h.reported, ?_, h.looked, h.names,
    fun p hp => h.ahead p (List.mem_cons_of_mem path hp)⟩
  have hs := h.single
  rw [List.length_cons] at hs
  omega

theorem enter (h : Climbing files s name visited records looked names (path :: ahead)) :
    Climbing files s name (path :: visited) records (path :: looked) names ahead := by
  have hs := h.single
  rw [List.length_cons] at hs
  obtain rfl : looked = [] := List.length_eq_zero_iff.1 (by omega)
  obtain rfl : names = [] := List.length_eq_zero_iff.1 (by omega)
  obtain rfl : ahead = [] := List.length_eq_zero_iff.1 (by omega)
  have hr := h.reported
  rw [show recordsOf files s [] = [] from rfl, List.append_nil] at hr
  refine ⟨⟨h.ahead path List.mem_cons_self, h.climbs⟩, ?_, Nat.le_refl 1, ?_, nofun, nofun⟩
  · rw [List.reverse_cons, recordsOf_concat, hr]
  · exact fun p hp => ⟨visited, congrArg (· :: visited) (List.mem_singleton.1 hp).symm⟩

theorem report (h : Climbing files s name visited records (path :: looked) names ahead)
    {calls : List String} (hc : calls = s.contents.shownCalls files path) :
    Climbing files s name visited
      (if calls = [] then records else records ++ [recordOf path calls]) looked
      (componentName path :: names) ahead := by
  have hs := h.single
  rw [List.length_cons] at hs
  obtain rfl : looked = [] := List.length_eq_zero_iff.1 (by omega)
  obtain rfl : names = [] := List.length_eq_zero_iff.1 (by omega)
  obtain rfl : ahead = [] := List.length_eq_zero_iff.1 (by omega)
  obtain ⟨below, rfl⟩ := h.looked path List.mem_cons_self
  refine ⟨h.climbs, ?_, Nat.le_refl 1, nofun, fun n hn => List.mem_singleton.1 hn, nofun⟩
  rw [report_eq hc, show recordsOf files s [] = [] from rfl, List.append_nil]
  exact h.reported

theorem ascend {n : String} (hc : (s.shownImporters files n).length ≤ 1)
    (h : Climbing files s name visited records looked (n :: names) ahead) :
    Climbing files s name visited records looked names (s.shownImporters files n ++ ahead) := by
  have hs := h.single
  rw [List.length_cons] at hs
  obtain rfl : looked = [] := List.length_eq_zero_iff.1 (by omega)
  obtain rfl : names = [] := List.length_eq_zero_iff.1 (by omega)
  obtain rfl : ahead = [] := List.length_eq_zero_iff.1 (by omega)
  obtain rfl := h.names n List.mem_cons_self
  rw [List.append_nil]
  exact ⟨h.climbs, h.reported, by simpa using hc, nofun, nofun, fun p hp => hp⟩

end Climbing

end Session
end Ancestry
