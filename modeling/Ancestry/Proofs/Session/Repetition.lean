import Ancestry.Proofs.Session.Cost

/-!
A search that is repeated. The first search leaves everything on its way in the caches, so the second
one, whatever became of the files meanwhile, walks the same graph and does nothing but count hits.

Files that are visited side by side are reported in the order in which they come to their turn, and
the second search need not wait where the first one did. Only on a chain there is one order.
-/

namespace Ancestry
namespace Session
variable {files files' : Files} {s t u : Session} {name path : String}
variable {paths names visited : List String} {tasks : List Task} {m m' : Instant} {b : Nat}

/-- Counts hits and leaves all else as it is. -/
def countHits (calls lists : Nat) (s : Session) : Session :=
  { s with
    contents := { s.contents with stats.providesHits := s.contents.stats.providesHits + calls }
    importers := { s.importers with stats.importerHits := s.importers.stats.importerHits + lists } }

@[simp] theorem countHits_zero (s : Session) : s.countHits 0 0 = s := by
  simp [countHits]

/-- What a search asks for and does not find would show in the counters. -/
theorem Spends.countHits_eq {cost : Cost} {a c : Nat} (h : s.Spends cost (s.countHits a c)) :
    a = cost.calls ∧ c = cost.lists := by
  obtain ⟨hc, -, hl, -, -⟩ := h
  simp only [statistics, Statistics.merge, countHits] at hc hl
  omega

/-- All that a search among `paths` can ask for is kept. -/
structure Complete (paths names : List String) (s : Session) : Prop where
  calls : ∀ p ∈ paths, ∃ calls, s.contents.calls.get? p = some calls
  components : ∀ p ∈ paths, componentName p ∈ names
  lists : ∀ m ∈ names, ∃ found, s.importers.lists.get? m = some found ∧ ∀ p ∈ found, p ∈ paths

/-- Whether a task is about what is kept. -/
def Covers (paths names : List String) : Task → Prop
  | .visit path | .enter path | .report path => path ∈ paths
  | .explore name => name ∈ names
  | _ => False

/-- A search on a session that keeps all it can ask for counts hits and has no other task. -/
structure Replays (t : Session) (paths names : List String) (u : Session) (tasks : List Task) :
    Prop where
  session : ∃ a c, u = t.countHits a c
  tasks : ∀ task ∈ tasks, Covers paths names task

theorem Replays.next (hc : t.Complete paths names) (hm : m.Seeking files s name b)
    (hn : m.Next files m') (h : t.Replays paths names m.session (m.tasks b)) :
    t.Replays paths names m'.session (m'.tasks b) := by
  obtain ⟨⟨a, c, hs⟩, ht⟩ := h
  -- What stands first among the tasks is what the branch is at.
  have hrest : ∀ {task rest}, m.tasks b = task :: rest → ∀ other ∈ rest, Covers paths names other :=
    fun he other ho => ht other (he ▸ List.mem_cons_of_mem _ ho)
  cases hn with
  | skip hv => exact ⟨⟨a, c, hs⟩, hrest rfl⟩
  | enter hv =>
    have hp := ht (.visit _) List.mem_cons_self
    exact ⟨⟨a, c, hs⟩, List.forall_mem_cons.2 ⟨hp, hrest rfl⟩⟩
  | textKnown hx => exact (ht .fetch List.mem_cons_self).elim
  | askText hx => exact (ht .fetch List.mem_cons_self).elim
  | takeText hr => exact (ht .fetch List.mem_cons_self).elim
  | endText hr => exact (ht .fetch List.mem_cons_self).elim
  | callsKnown hx =>
    subst hs
    have hp := ht (.enter _) List.mem_cons_self
    refine ⟨⟨a + 1, c, ?_⟩, List.forall_mem_cons.2 ⟨hp, hrest rfl⟩⟩
    simp [countHits, Contents.countCallsHit, Int.add_assoc]
  | callsOfKnown hx _ =>
    subst hs
    obtain ⟨calls, hk⟩ := hc.calls _ (ht (.enter _) List.mem_cons_self)
    cases hx.symm.trans hk
  | askCalls hx _ =>
    subst hs
    obtain ⟨calls, hk⟩ := hc.calls _ (ht (.enter _) List.mem_cons_self)
    cases hx.symm.trans hk
  | takeCalls hr => exact (ht (.look _) List.mem_cons_self).elim
  | endCalls hr => exact (ht (.look _) List.mem_cons_self).elim
  | tell hx => cases hx.symm.trans hm.call
  | report hx =>
    rename_i s fl path calls
    have hp : path ∈ paths := ht (.report path) List.mem_cons_self
    exact ⟨⟨a, c, hs⟩, List.forall_mem_cons.2 ⟨hc.components path hp, hrest rfl⟩⟩
  | listKnown hl =>
    subst hs
    rename_i fl n found
    obtain ⟨kept, hk, hin⟩ := hc.lists n (ht (.explore n) List.mem_cons_self)
    obtain rfl : found = kept := Option.some.inj (hl.symm.trans hk)
    refine ⟨⟨a, c + 1, ?_⟩, List.forall_mem_append.2 ⟨?_, hrest rfl⟩⟩
    · simp [countHits, Importers.countHit, Int.add_assoc]
    · exact List.forall_mem_map.2 hin
  | scan hl =>
    subst hs
    obtain ⟨kept, hk, -⟩ := hc.lists _ (ht (.explore _) List.mem_cons_self)
    cases hl.symm.trans hk
  | cell ho hn => exact (ht (.scan _) List.mem_cons_self).elim
  | gather hx => exact (ht (.scan _) List.mem_cons_self).elim
  | answer hx => cases hx.symm.trans hm.call
  | spread hx =>
    refine ⟨⟨a, c, hs⟩, fun task hm' => ht task ?_⟩
    rw [Instant.tasks, Flight.tasks_spread hm.steady.branch] at hm'
    exact List.perm_append_comm.mem_iff.1 hm'

/-- Where the session shows the same importers of all that a search from `name` comes to, the search
comes to the same. -/
theorem reachable_congr
    (h : ∀ n, Sought files s name n → t.shownImporters files' n = s.shownImporters files n)
    (p : String) : Reachable files' t name p ↔ Reachable files s name p := by
  constructor
  · intro hp
    induction hp with
    | importer hi => exact .importer (h _ (.inl rfl) ▸ hi)
    | above _ hq ih => exact .above ih (h _ (.inr ⟨_, ih, rfl⟩) ▸ hq)
  · intro hp
    induction hp with
    | importer hi => exact .importer ((h _ (.inl rfl)).symm ▸ hi)
    | above hp hq ih => exact .above ih ((h _ (.inr ⟨_, hp, rfl⟩)).symm ▸ hq)

theorem sought_congr
    (h : ∀ n, Sought files s name n → t.shownImporters files' n = s.shownImporters files n)
    (n : String) : Sought files' t name n ↔ Sought files s name n := by
  simp only [Sought, reachable_congr h]

theorem Climbs.congr
    (h : ∀ n, Sought files s name n → t.shownImporters files' n = s.shownImporters files n)
    (hc : Climbs files' t name visited) : Climbs files s name visited := by
  induction visited with
  | nil => trivial
  | cons path below ih =>
    have hb := ih hc.2
    exact ⟨h _ hb.sought ▸ hc.1, hb⟩

/-- A search leaves all that it can ask for a second time in the caches, and what is kept is what was
shown at its start. -/
theorem Yields.complete {slots : Nat} {records : List Record}
    (h : s.Yields files slots (.ancestors name) (.records records) t) (files' : Files) :
    ∃ visited, s.Underway files name visited records [] [] [] ∧
      t.Complete visited (name :: visited.map componentName) ∧
      (∀ n, Sought files s name n → t.shownImporters files' n = s.shownImporters files n) ∧
      ∀ p ∈ visited, t.contents.shownCalls files' p = s.contents.shownCalls files p := by
  obtain ⟨visited, hu, hs, paths, names, scans, texts, ha⟩ := h.asked
  have hp : paths.Perm visited := by simpa using ha.paths_perm
  have hnames : names.Perm (name :: visited.map componentName) := by simpa using ha.names_perm
  have hcalls : ∀ p ∈ visited, ∃ calls, t.contents.calls.get? p = some calls := fun p hm =>
    Option.ne_none_iff_exists'.1 ((ha.callsKept p (hp.mem_iff.2 hm)).resolve_left (by simp))
  have hlists : ∀ n ∈ name :: visited.map componentName,
      ∃ found, t.importers.lists.get? n = some found ∧ s.shownImporters files n = found := by
    intro n hm
    obtain ⟨found, hf⟩ := Option.ne_none_iff_exists'.1
      ((ha.listsKept n (hnames.mem_iff.2 hm)).resolve_left (by simp))
    exact ⟨found, hf, hs.shownImporters_of_some hf⟩
  have hsought : ∀ n ∈ name :: visited.map componentName, Sought files s name n := by
    intro n hm
    rcases List.mem_cons.1 hm with hm | hm
    · exact .inl hm
    · obtain ⟨p, hp, rfl⟩ := List.mem_map.1 hm
      exact .inr ⟨p, (hu.mem_iff p).1 hp, rfl⟩
  refine ⟨visited, hu, ⟨hcalls, fun p hm => ?_, fun n hm => ?_⟩, fun n hn => ?_, fun p hm => ?_⟩
  · exact List.mem_cons_of_mem _ (List.mem_map_of_mem hm)
  · obtain ⟨found, hf, he⟩ := hlists n hm
    exact ⟨found, hf, fun p hi => (hu.mem_iff p).2 ((hsought n hm).reachable (he ▸ hi))⟩
  · have hm : n ∈ name :: visited.map componentName := by
      rcases hn with rfl | ⟨p, hp, rfl⟩
      · exact List.mem_cons_self
      · exact List.mem_cons_of_mem _ (List.mem_map_of_mem ((hu.mem_iff p).2 hp))
    obtain ⟨found, hf, he⟩ := hlists n hm
    rw [shownImporters, hf, he, Option.getD_some]
  · obtain ⟨calls, hk⟩ := hcalls p hm
    rw [Contents.shownCalls, hk, Option.getD_some, hs.shownCalls_of_some hk]

/-- Whatever a session keeps, stale or not, and in whatever order the turns of two searches come: the
second one is answered whatever has become of the files in between, reports what the first one did, no
file twice, and does so in the same order if the graph above the component is a chain. All that it
leaves behind are hits of calls and lists. -/
theorem search_again (files files' : Files) (slots slots' : Nat) {s t : Session} {name : String}
    {records : List Record} (h : s.Yields files slots (.ancestors name) (.records records) t) :
    (0 < slots' →
        ∃ records' u, t.Yields files' slots' (.ancestors name) (.records records') u) ∧
      ∀ records' u, t.Yields files' slots' (.ancestors name) (.records records') u →
        records'.Perm records ∧ (records'.map Record.source).Nodup ∧
          (Chain files s name → records' = records) ∧
          ∃ k : Nat, u = t.countHits k (k + 1) := by
  refine ⟨fun hs => exists_yields files' hs name t, fun records' u h' => ?_⟩
  obtain ⟨visited, hu, hc, hlists, hcalls⟩ := h.complete files'
  obtain ⟨visited', hu', -, paths, names, scans, texts, ha⟩ := h'.asked
  have hp : visited'.Perm visited := by
    refine (List.perm_ext_iff_of_nodup hu'.nodup hu.nodup).2 fun p => ?_
    rw [hu'.mem_iff, hu.mem_iff, reachable_congr hlists]
  have hrecords : ∀ l : List String, (∀ p ∈ l, p ∈ visited) →
      recordsOf files' t l = recordsOf files s l := fun l hl =>
    recordsOf_congr fun p hm => hcalls p (hl p hm)
  have hsame : records'.Perm (recordsOf files s visited') := by
    have hr := hu'.reported
    rw [hrecords visited' fun p hm => hp.mem_iff.1 hm] at hr
    simpa [recordsOf] using hr
  refine ⟨?_, ?_, fun hchain => ?_, ?_⟩
  · have hr : records.Perm (recordsOf files s visited) := by simpa [recordsOf] using hu.reported
    exact hsame.trans ((recordsOf_perm hp).trans hr.symm)
  · rw [(hsame.map Record.source).nodup_iff, sources_recordsOf]
    exact hu'.nodup.filter _
  · -- On a chain both searches climb the same way.
    have hchain' : Chain files' t name := fun n hn => by
      have hn := (sought_congr hlists n).1 hn
      rw [hlists n hn]
      exact hchain n hn
    have hcl := hu.climbing hchain
    have hcl' := hu'.climbing hchain'
    have hv : visited' = visited :=
      (hcl'.climbs.congr hlists).eq_of_length hchain hcl.climbs hp.length_eq
    subst hv
    have hr := hcl.reported
    have hr' := hcl'.reported
    rw [hrecords _ fun p hm => List.mem_reverse.1 hm] at hr'
    simpa [recordsOf] using hr'.trans hr.symm
  · obtain ⟨-, ⟨⟨a, c, rfl⟩, -⟩, -⟩ := h'.keeps_tasks
      (P := fun u _ tasks => t.Replays visited (name :: visited.map componentName) u tasks)
      (fun ht hr => ⟨hr.session, fun task hm => hr.tasks task (ht.mem_iff.2 hm)⟩)
      (fun hm hn hr => hr.next hc hm hn)
      ⟨⟨0, 0, (countHits_zero t).symm⟩, List.forall_mem_singleton.2 List.mem_cons_self⟩
    obtain ⟨rfl, rfl⟩ := ha.cost.countHits_eq
    have hpaths : paths.Perm visited' := by simpa using ha.paths_perm
    have hnames : names.Perm (name :: visited'.map componentName) := by simpa using ha.names_perm
    refine ⟨visited'.length, ?_⟩
    simp only [hpaths.length_eq, hnames.length_eq, List.length_cons, List.length_map]

/-- `A` and `B` import `N`, `A1` imports `A` and `B1` imports `B`. -/
def forkFiles : Files := fun path =>
  match path with
  | "/A.vue" | "/B.vue" => some "<script>import N from 'N'</script>provide(x, 1)"
  | "/A1.vue" => some "<script>import A from 'A'</script>provide(x, 1)"
  | "/B1.vue" => some "<script>import B from 'B'</script>provide(x, 1)"
  | _ => none

/-- The importers of `B` are there already. -/
def fork : Session :=
  (Schedule.ask forkFiles 8 (.ancestors "B")
    (.new false ".vue" ["/A.vue", "/A1.vue", "/B.vue", "/B1.vue"])).2

/-- The first search waits for the importers of `A`, the second one does not. -/
theorem fork_reordered :
    let first := Schedule.ask forkFiles 8 (.ancestors "N") fork
    let second := Schedule.ask forkFiles 8 (.ancestors "N") first.2
    let recordsAt (paths : List String) := Answer.records (paths.map (recordOf · ["provide(x, 1)"]))
    first.1 = some (recordsAt ["/A.vue", "/B.vue", "/B1.vue", "/A1.vue"]) ∧
      second.1 = some (recordsAt ["/A.vue", "/B.vue", "/A1.vue", "/B1.vue"]) := by
  decide +kernel

/-- The second search has the records of the first one where no file can be read any more. -/
theorem search_again_fork :
    let first := Schedule.ask forkFiles 8 (.ancestors "N") fork
    let records := ["/A.vue", "/B.vue", "/B1.vue", "/A1.vue"].map (recordOf · ["provide(x, 1)"])
    ∃ records' u, first.2.Yields (fun _ => none) 1 (.ancestors "N") (.records records') u ∧
      records'.Perm records := by
  intro first records
  have h : fork.Yields forkFiles 8 (.ancestors "N") (.records records) first.2 :=
    yields_of_ask (Prod.ext (by decide +kernel) rfl)
  obtain ⟨hs, hall⟩ := search_again forkFiles (fun _ => none) 8 1 h
  obtain ⟨records', u, h'⟩ := hs Nat.one_pos
  exact ⟨records', u, h', (hall records' u h').1⟩

end Session
end Ancestry
