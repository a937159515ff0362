import Ancestry.Proofs.Session.Tasks
import Mathlib.Data.Finset.Card
import Mathlib.Data.Finset.Image

/-!
What a search costs, whatever the order of its turns. It asks for the provide calls of each file above
the component once, and for the importers of the component and of each of those files. What it was asked
for is kept, so the counters tell which answers it did not have.

Files of one name make the difference between one order and another. Two of them can be on their way to
their importers at a time, and then both look for them; or the second comes when the first has found
them.
-/

namespace Ancestry

/-- How often a session is asked for provide calls and for importers, how often it does not have them,
and how often it is asked for texts. -/
structure Cost where
  calls : Nat := 0
  freshCalls : Nat := 0
  lists : Nat := 0
  freshLists : Nat := 0
  texts : Nat := 0

instance : Add Cost where
  add a b := ⟨a.calls + b.calls, a.freshCalls + b.freshCalls, a.lists + b.lists,
    a.freshLists + b.freshLists, a.texts + b.texts⟩

theorem Cost.add_def (a b : Cost) : a + b = ⟨a.calls + b.calls, a.freshCalls + b.freshCalls,
    a.lists + b.lists, a.freshLists + b.freshLists, a.texts + b.texts⟩ :=
  rfl

namespace Session
variable {files : Files} {s₀ s t u : Session} {name path m : String} {a b : Cost}

/-- By how much the counters grow. -/
structure Spends (s : Session) (cost : Cost) (t : Session) : Prop where
  calls : t.statistics.providesHits + t.statistics.providesMisses =
    s.statistics.providesHits + s.statistics.providesMisses + cost.calls
  freshCalls : t.statistics.providesMisses = s.statistics.providesMisses + cost.freshCalls
  lists : t.statistics.importerHits + t.statistics.importerMisses =
    s.statistics.importerHits + s.statistics.importerMisses + cost.lists
  freshLists : t.statistics.importerMisses = s.statistics.importerMisses + cost.freshLists
  texts : t.statistics.contentHits + t.statistics.contentMisses =
    s.statistics.contentHits + s.statistics.contentMisses + cost.texts

theorem spends_of_statistics (h : t.statistics = s.statistics) : s.Spends {} t := by
  constructor <;> simp [h]

theorem Spends.trans (h : s.Spends a t) (h' : t.Spends b u) : s.Spends (a + b) u := by
  obtain ⟨_, _, _, _, _⟩ := h
  obtain ⟨_, _, _, _, _⟩ := h'
  rw [Cost.add_def]
  constructor <;> dsimp only <;> omega

theorem spends_textHit (s : Session) :
    s.Spends { texts := 1 } { s with contents := s.contents.countTextHit } := by
  constructor <;> simp only [statistics, Statistics.merge, Contents.countTextHit] <;> omega

theorem spends_request (path : String) (s : Session) :
    s.Spends { texts := 1 } { s with contents := (s.contents.request path).2 } := by
  constructor <;> simp only [statistics, Statistics.merge, Contents.request] <;> omega

theorem spends_callsHit (s : Session) :
    s.Spends { calls := 1 } { s with contents := s.contents.countCallsHit } := by
  constructor <;> simp only [statistics, Statistics.merge, Contents.countCallsHit] <;> omega

theorem spends_callsMiss (s : Session) :
    s.Spends { calls := 1, freshCalls := 1 }
      { s with contents := s.contents.countCallsMiss } := by
  constructor <;> simp only [statistics, Statistics.merge, Contents.countCallsMiss] <;> omega

theorem spends_listHit (s : Session) :
    s.Spends { lists := 1 } { s with importers := s.importers.countHit } := by
  constructor <;> simp only [statistics, Statistics.merge, Importers.countHit] <;> omega

theorem spends_listMiss (s : Session) :
    s.Spends { lists := 1, freshLists := 1 } { s with importers := s.importers.countMiss } := by
  constructor <;> simp only [statistics, Statistics.merge, Importers.countMiss] <;> omega

/-! Reads and what is kept in the end cost nothing more. -/

theorem spends_takeText (files : Files) (r : Read) (s : Session) :
    s.Spends {} (s.takeText files r).1 := by
  constructor <;>
    simp only [statistics, Statistics.merge, takeText, Contents.countRead] <;> omega

theorem spends_endRead (r : Read) (text? : Option String) (s : Session) :
    s.Spends {} (s.endRead r text?) := by
  cases text? <;> unfold endRead keepRead Contents.keepText <;> split <;> constructor <;>
    simp only [statistics, Statistics.merge, Contents.countEnd] <;> omega

theorem spends_keepCalls (path : String) (mark : Mark) (calls : List String) (s : Session) :
    s.Spends {} { s with contents := s.contents.keepCalls path mark calls } := by
  unfold Contents.keepCalls
  split <;> exact spends_of_statistics rfl

theorem spends_settle (candidates : List String) (name : String) (epoch : Nat)
    (found : List String) (s : Session) :
    s.Spends {} { s with importers := (s.importers.settle candidates name epoch found).2 } := by
  unfold Importers.settle
  split <;> exact spends_of_statistics rfl

end Session

/-! What the session was asked for, and what is kept after that. -/

/-- The file whose provide calls are to be asked for. -/
def Task.entered? : Task → Option String
  | enter path => some path
  | _ => none

/-- The component that is still on the way to its importers: they are to be asked for, or the file that
defines the component is not reported yet. -/
def Task.sought? : Task → Option String
  | enter path | look path | report path => some (componentName path)
  | explore name => some name
  | _ => none

section Visits
variable (found : List String) (tasks : List Task)

theorem filterMap_entered_visits :
    (found.map Task.visit ++ tasks).filterMap Task.entered? = tasks.filterMap Task.entered? := by
  simp [List.filterMap_append, List.filterMap_map, Function.comp_def, Task.entered?]

theorem filterMap_sought_visits :
    (found.map Task.visit ++ tasks).filterMap Task.sought? = tasks.filterMap Task.sought? := by
  simp [List.filterMap_append, List.filterMap_map, Function.comp_def, Task.sought?]

theorem count_text_visits :
    (found.map Task.visit ++ tasks).count .text = tasks.count .text := by
  have hn : Task.text ∉ found.map .visit := by simp
  rw [List.count_append, List.count_eq_zero_of_not_mem hn, Nat.zero_add]

end Visits

namespace Session
variable {files : Files} {s₀ s t : Session} {name path m : String}
variable {paths names visited found calls : List String} {tasks tasks' : List Task}
variable {scans texts : Nat}

/-- The session does not keep the provide calls of the file. -/
abbrev LacksCalls (s : Session) (path : String) : Prop :=
  s.contents.calls.get? path = none

/-- The session does not keep the importers of the component. -/
abbrev LacksList (s : Session) (name : String) : Prop :=
  s.importers.lists.get? name = none

/-- How often a search from `name` that asked for the importers of `names` may have looked for them:
once for `name`, since no file is visited before its importers are there, and once for each file of
another name. -/
def mostScans (s : Session) (name : String) (names : List String) : Nat :=
  names.countP (fun m => m ≠ name ∧ s.LacksList m) + if name ∈ names ∧ s.LacksList name then 1 else 0

theorem mostScans_le_cons (s : Session) (name m : String) (names : List String) :
    s.mostScans name names ≤ s.mostScans name (m :: names) := by
  have hif : (if name ∈ names ∧ s.LacksList name then 1 else 0) ≤
      if name ∈ m :: names ∧ s.LacksList name then 1 else 0 := by
    split
    · rename_i hn
      rw [if_pos ⟨List.mem_cons_of_mem m hn.1, hn.2⟩]
    · exact Nat.zero_le _
  simp only [mostScans, List.countP_cons]
  omega

theorem mostScans_cons (hm : s.LacksList m) (hn : m = name → name ∉ names) :
    s.mostScans name (m :: names) = s.mostScans name names + 1 := by
  by_cases he : m = name
  · subst he
    simp [mostScans, hm, hn rfl]
  · have hc : decide (m ≠ name ∧ s.LacksList m) = true := decide_eq_true ⟨he, hm⟩
    have hi : name ∈ m :: names ↔ name ∈ names := by simp [Ne.symm he]
    simp only [mostScans, List.countP_cons, hc, hi, if_true]
    omega

theorem calls_endRead (r : Read) (text? : Option String) (s : Session) :
    (s.endRead r text?).contents.calls = s.contents.calls := by
  cases text? <;> unfold endRead keepRead Contents.keepText <;> split <;> rfl

/-- A search from `name` that began on `s₀` has asked for the provide calls of `paths` and the
importers of `names`, looked for importers `scans` times and asked for `texts` texts. -/
structure Asked (s₀ : Session) (name : String) (paths names : List String) (scans texts : Nat)
    (s : Session) (visited : List String) (tasks : List Task) : Prop where
  paths_perm : (paths ++ tasks.filterMap Task.entered?).Perm visited
  names_perm : (names ++ tasks.filterMap Task.sought?).Perm (name :: visited.map componentName)
  looked : ∀ p, .look p ∈ tasks → p ∈ paths
  scanned : ∀ m, .scan m ∈ tasks → m ∈ names
  calls : ∀ p, p ∉ paths → s.contents.calls.get? p = s₀.contents.calls.get? p
  callsKept : ∀ p ∈ paths, .look p ∈ tasks ∨ ¬ s.LacksCalls p
  lists : ∀ m, m ∉ names → s.importers.lists.get? m = s₀.importers.lists.get? m
  listsKept : ∀ m ∈ names, .scan m ∈ tasks ∨ ¬ s.LacksList m
  listsStay : ∀ m, s.LacksList m → s₀.LacksList m
  first : visited = [] ∧ (∀ p, .visit p ∉ tasks) ∨ ¬ s.LacksList name
  cost : s₀.Spends
    ⟨paths.length, paths.countP (s₀.LacksCalls ·), names.length, scans, texts⟩ s
  texts : texts + tasks.count .text =
    scans * s₀.candidates.length + paths.countP (s₀.LacksCalls ·)
  least : (names.toFinset.filter (s₀.LacksList ·)).card ≤ scans
  most : scans ≤ s₀.mostScans name names

namespace Asked

theorem perm (h : s₀.Asked name paths names scans texts s visited tasks) (ht : tasks.Perm tasks') :
    s₀.Asked name paths names scans texts s visited tasks' where
  paths_perm := ((ht.symm.filterMap _).append_left paths).trans h.paths_perm
  names_perm := ((ht.symm.filterMap _).append_left names).trans h.names_perm
  looked p hp := h.looked p (ht.mem_iff.2 hp)
  scanned m hm := h.scanned m (ht.mem_iff.2 hm)
  calls := h.calls
  callsKept p hp := (h.callsKept p hp).imp_left ht.mem_iff.1
  lists := h.lists
  listsKept m hm := (h.listsKept m hm).imp_left ht.mem_iff.1
  listsStay := h.listsStay
  first := h.first.imp_left fun hf => ⟨hf.1, fun p hp => hf.2 p (ht.mem_iff.2 hp)⟩
  cost := h.cost
  texts := ht.count_eq _ ▸ h.texts
  least := h.least
  most := h.most

theorem start (s : Session) (name : String) : s.Asked name [] [] 0 0 s [] [.explore name] where
  paths_perm := .refl _
  names_perm := .refl _
  looked _ hp := by simp at hp
  scanned _ hm := by simp at hm
  calls _ _ := rfl
  callsKept _ hp := nomatch hp
  lists _ _ := rfl
  listsKept _ hm := nomatch hm
  listsStay _ hm := hm
  first := .inl ⟨rfl, by simp⟩
  cost := spends_of_statistics rfl
  texts := by simp
  least := Nat.le_refl 0
  most := Nat.zero_le _

/-- A component that is sought before any file is visited is the first one. -/
theorem eq_name (h : s₀.Asked name paths names scans texts s [] tasks)
    (hm : m ∈ names ∨ ∃ task ∈ tasks, task.sought? = some m) : m = name := by
  have hp := h.names_perm
  rw [List.map_nil] at hp
  have hm : m ∈ names ++ tasks.filterMap Task.sought? := by
    rw [List.mem_append, List.mem_filterMap]
    exact hm
  exact List.mem_singleton.1 (hp.mem_iff.1 hm)

/-- Texts are asked for, and what is kept of calls and lists stays. -/
theorem count {n : Nat}
    (h : s₀.Asked name paths names scans texts s visited (List.replicate n .text ++ tasks))
    (ht : s.Spends { texts := n } t) (hc : t.contents.calls = s.contents.calls)
    (hl : t.importers.lists = s.importers.lists) :
    s₀.Asked name paths names scans (texts + n) t visited tasks where
  paths_perm := by
    have hp := h.paths_perm
    rwa [List.filterMap_append, List.filterMap_replicate_of_none rfl] at hp
  names_perm := by
    have hp := h.names_perm
    rwa [List.filterMap_append, List.filterMap_replicate_of_none rfl] at hp
  looked p hp := h.looked p (List.mem_append_right _ hp)
  scanned m hm := h.scanned m (List.mem_append_right _ hm)
  calls := hc ▸ h.calls
  callsKept := by simpa [LacksCalls, hc, List.mem_append, List.mem_replicate] using h.callsKept
  lists := hl ▸ h.lists
  listsKept := by simpa [LacksList, hl, List.mem_append, List.mem_replicate] using h.listsKept
  listsStay := by simpa only [LacksList, hl] using h.listsStay
  first := by simpa [LacksList, hl, List.mem_append, List.mem_replicate] using h.first
  cost := h.cost.trans ht
  texts := by
    have hx := h.texts
    rw [List.count_append, List.count_replicate_self] at hx
    omega
  least := h.least
  most := h.most

theorem skip (h : s₀.Asked name paths names scans texts s visited (.visit path :: tasks)) :
    s₀.Asked name paths names scans texts s visited tasks where
  paths_perm := h.paths_perm
  names_perm := h.names_perm
  looked p hp := h.looked p (List.mem_cons_of_mem _ hp)
  scanned m hm := h.scanned m (List.mem_cons_of_mem _ hm)
  calls := h.calls
  callsKept := by simpa using h.callsKept
  lists := h.lists
  listsKept := by simpa using h.listsKept
  listsStay := h.listsStay
  first := h.first.imp_left fun hf => absurd List.mem_cons_self (hf.2 path)
  cost := h.cost
  texts := by simpa using h.texts
  least := h.least
  most := h.most

theorem enter (h : s₀.Asked name paths names scans texts s visited (.visit path :: tasks)) :
    s₀.Asked name paths names scans texts s (path :: visited) (.enter path :: tasks) where
  paths_perm := List.perm_middle.trans (h.paths_perm.cons path)
  names_perm := List.perm_middle.trans ((h.names_perm.cons _).trans (.swap ..))
  looked := by simpa using h.looked
  scanned := by simpa using h.scanned
  calls := h.calls
  callsKept := by simpa using h.callsKept
  lists := h.lists
  listsKept := by simpa using h.listsKept
  listsStay := h.listsStay
  first := .inr (h.first.resolve_left fun hf => hf.2 path List.mem_cons_self)
  cost := h.cost
  texts := by simpa using h.texts
  least := h.least
  most := h.most

/-- The provide calls of a visited file are asked for, and a text if they are not kept. Either they are
there then or they are on their way. -/
theorem lookUp {n : Nat} {task : Task}
    (h : s₀.Asked name paths names scans texts s visited (.enter path :: tasks))
    (hv : visited.Nodup) (hn : n = if s.LacksCalls path then 1 else 0)
    (ht : s.Spends { calls := 1, freshCalls := n, texts := n } t)
    (hc : ∀ p, p ≠ path → t.contents.calls.get? p = s.contents.calls.get? p)
    (hl : t.importers.lists = s.importers.lists)
    (htask : task = .look path ∨ task = .report path ∧ ¬ t.LacksCalls path) :
    s₀.Asked name (path :: paths) names scans (texts + n) t visited (task :: tasks) := by
  have hp : path ∉ paths := by
    have hd := h.paths_perm.nodup_iff.2 hv
    intro hm
    exact (List.nodup_append.1 hd).2.2 path hm path List.mem_cons_self rfl
  have hs : s.LacksCalls path ↔ s₀.LacksCalls path := by rw [LacksCalls, h.calls path hp]
  have hcount : (path :: paths).countP (s₀.LacksCalls ·) = paths.countP (s₀.LacksCalls ·) + n := by
    rw [List.countP_cons, hn]
    simp only [hs, decide_eq_true_eq]
  have hsought : task.sought? = some (componentName path) := by
    rcases htask with rfl | ⟨rfl, -⟩ <;> rfl
  have hentered : task.entered? = none := by
    rcases htask with rfl | ⟨rfl, -⟩ <;> rfl
  constructor
  case paths_perm =>
    rw [List.filterMap_cons_none hentered]
    exact List.perm_middle.symm.trans h.paths_perm
  case names_perm =>
    rw [List.filterMap_cons_some hsought]
    exact h.names_perm
  case looked =>
    intro p hm
    rcases List.mem_cons.1 hm with he | hm
    · rcases htask with rfl | ⟨rfl, -⟩
      · exact Task.look.inj he ▸ List.mem_cons_self
      · cases he
    · exact List.mem_cons_of_mem _ (h.looked p (List.mem_cons_of_mem _ hm))
  case scanned =>
    intro m hm
    refine h.scanned m (List.mem_cons_of_mem _ ((List.mem_cons.1 hm).resolve_left ?_))
    rcases htask with rfl | ⟨rfl, -⟩ <;> exact nofun
  case calls =>
    intro p hm
    rw [List.mem_cons, not_or] at hm
    rw [hc p hm.1, h.calls p hm.2]
  case callsKept =>
    intro p hm
    by_cases he : p = path
    · subst he
      rcases htask with rfl | ⟨-, hk⟩
      · exact .inl List.mem_cons_self
      · exact .inr hk
    · have hk := h.callsKept p ((List.mem_cons.1 hm).resolve_left he)
      rw [LacksCalls, hc p he]
      refine hk.imp_left fun hl => List.mem_cons_of_mem _ ?_
      exact (List.mem_cons.1 hl).resolve_left nofun
  case lists => exact hl ▸ h.lists
  case listsKept =>
    intro m hm
    rw [LacksList, hl]
    refine (h.listsKept m hm).imp_left fun hs => List.mem_cons_of_mem _ ?_
    exact (List.mem_cons.1 hs).resolve_left nofun
  case listsStay => simpa only [LacksList, hl] using h.listsStay
  case first =>
    rw [LacksList, hl]
    refine h.first.imp_left fun hf => ⟨hf.1, fun p hp => ?_⟩
    rcases List.mem_cons.1 hp with he | hp
    · rcases htask with rfl | ⟨rfl, -⟩ <;> cases he
    · exact hf.2 p (List.mem_cons_of_mem _ hp)
  case cost =>
    rw [hcount]
    exact h.cost.trans ht
  case texts =>
    have hx := h.texts
    have htext : task ≠ .text := by
      rcases htask with rfl | ⟨rfl, -⟩ <;> exact nofun
    have henter : Task.enter path ≠ .text := nofun
    rw [List.count_cons_of_ne henter] at hx
    rw [hcount, List.count_cons_of_ne htext]
    omega
  case least => exact h.least
  case most => exact h.most

/-- The provide calls of a visited file arrive and are kept. -/
theorem arrive (h : s₀.Asked name paths names scans texts s visited (.look path :: tasks))
    (ht : s.Spends {} t) (hk : ¬ t.LacksCalls path)
    (hc : ∀ p, p ≠ path → t.contents.calls.get? p = s.contents.calls.get? p)
    (hl : t.importers.lists = s.importers.lists) :
    s₀.Asked name paths names scans texts t visited (.report path :: tasks) where
  paths_perm := h.paths_perm
  names_perm := h.names_perm
  looked p hp := h.looked p (List.mem_cons_of_mem _ ((List.mem_cons.1 hp).resolve_left nofun))
  scanned := by simpa using h.scanned
  calls p hp := by
    have hne : p ≠ path := fun he => hp (he ▸ h.looked path List.mem_cons_self)
    rw [hc p hne, h.calls p hp]
  callsKept p hp := by
    by_cases he : p = path
    · exact .inr (he ▸ hk)
    · rw [LacksCalls, hc p he]
      simpa [he] using h.callsKept p hp
  lists := hl ▸ h.lists
  listsKept := by simpa [LacksList, hl] using h.listsKept
  listsStay := by simpa only [LacksList, hl] using h.listsStay
  first := by simpa [LacksList, hl] using h.first
  cost := h.cost.trans ht
  texts := by simpa using h.texts
  least := h.least
  most := h.most

theorem report (h : s₀.Asked name paths names scans texts s visited (.report path :: tasks)) :
    s₀.Asked name paths names scans texts s visited
      (.explore (componentName path) :: tasks) where
  paths_perm := h.paths_perm
  names_perm := h.names_perm
  looked := by simpa using h.looked
  scanned := by simpa using h.scanned
  calls := h.calls
  callsKept := by simpa using h.callsKept
  lists := h.lists
  listsKept := by simpa using h.listsKept
  listsStay := h.listsStay
  first := by simpa using h.first
  cost := h.cost
  texts := by simpa using h.texts
  least := h.least
  most := h.most

/-- Once some component has its importers, `name` has. -/
theorem first_of_kept (h : s₀.Asked name paths names scans texts s visited tasks)
    (hm : m ∈ names ∨ ∃ task ∈ tasks, task.sought? = some m) (hk : ¬ t.LacksList m)
    (hl : ∀ n, t.LacksList n → s.LacksList n) : ¬ t.LacksList name := by
  rcases h.first with ⟨hv, -⟩ | hf
  · subst hv
    exact h.eq_name hm ▸ hk
  · exact fun ht => hf (hl name ht)

/-- The importers of a component are asked for and kept. -/
theorem listed (h : s₀.Asked name paths names scans texts s visited (.explore m :: tasks))
    (hm : s.importers.lists.get? m = some found) :
    s₀.Asked name paths (m :: names) scans texts
      { s with importers := s.importers.countHit } visited (found.map .visit ++ tasks) where
  paths_perm := by
    rw [filterMap_entered_visits]
    exact h.paths_perm
  names_perm := by
    rw [filterMap_sought_visits]
    exact List.perm_middle.symm.trans h.names_perm
  looked p hp := h.looked p (by simpa using hp)
  scanned n hn := List.mem_cons_of_mem m (h.scanned n (by simpa using hn))
  calls := h.calls
  callsKept p hp := (h.callsKept p hp).imp_left fun hl => by simpa using hl
  lists n hn := h.lists n fun hm => hn (List.mem_cons_of_mem m hm)
  listsKept n hn := by
    by_cases he : n = m
    · exact .inr (by simp [LacksList, Importers.countHit, he, hm])
    · exact (h.listsKept n ((List.mem_cons.1 hn).resolve_left he)).imp_left fun hl => by
        simpa using hl
  listsStay := h.listsStay
  first := .inr (h.first_of_kept (.inr ⟨_, List.mem_cons_self, rfl⟩)
    (by simp [LacksList, Importers.countHit, hm]) fun _ hn => hn)
  cost := h.cost.trans (spends_listHit s)
  texts := by
    rw [count_text_visits]
    simpa using h.texts
  least := by
    -- The list was kept at the start, or it was asked for before.
    have hi : (insert m names.toFinset).filter (s₀.LacksList ·) =
        names.toFinset.filter (s₀.LacksList ·) := by
      rw [Finset.filter_insert]
      split
      · rename_i hn
        refine Finset.insert_eq_of_mem (Finset.mem_filter.2 ⟨?_, hn⟩)
        rw [List.mem_toFinset]
        by_contra hmn
        rw [LacksList, ← h.lists m hmn, hm] at hn
        cases hn
      · rfl
    rw [List.toFinset_cons, hi]
    exact h.least
  most := Nat.le_trans h.most (s₀.mostScans_le_cons name m names)

/-- The importers of a component are asked for and not kept. -/
theorem scan (h : s₀.Asked name paths names scans texts s visited (.explore m :: tasks))
    (hm : s.LacksList m) :
    s₀.Asked name paths (m :: names) (scans + 1) texts
      { s with importers := s.importers.countMiss } visited
      (.scan m :: (List.replicate s₀.candidates.length .text ++ tasks)) where
  paths_perm := by
    have hp := h.paths_perm
    rw [List.filterMap_cons_none rfl] at hp ⊢
    rwa [List.filterMap_append, List.filterMap_replicate_of_none rfl]
  names_perm := by
    rw [List.filterMap_cons_none rfl, List.filterMap_append, List.filterMap_replicate_of_none rfl]
    exact List.perm_middle.symm.trans h.names_perm
  looked p hp := h.looked p (by simpa [List.mem_replicate] using hp)
  scanned n hn := by
    rcases List.mem_cons.1 hn with he | hn
    · exact Task.scan.inj he ▸ List.mem_cons_self
    · exact List.mem_cons_of_mem m (h.scanned n (by simpa [List.mem_replicate] using hn))
  calls := h.calls
  callsKept p hp := (h.callsKept p hp).imp_left fun hl => by simpa [List.mem_replicate] using hl
  lists n hn := h.lists n fun hm => hn (List.mem_cons_of_mem m hm)
  listsKept n hn := by
    by_cases he : n = m
    · exact .inl (he ▸ List.mem_cons_self)
    · refine (h.listsKept n ((List.mem_cons.1 hn).resolve_left he)).imp_left fun hl => ?_
      simpa [List.mem_replicate, he] using hl
  listsStay := h.listsStay
  first := h.first.imp_left fun hf => ⟨hf.1, fun p hp => hf.2 p (by
    simpa [List.mem_replicate] using hp)⟩
  cost := h.cost.trans (spends_listMiss s)
  texts := by
    have hx := h.texts
    have hexplore : Task.explore m ≠ .text := nofun
    have hscan : Task.scan m ≠ .text := nofun
    rw [List.count_cons_of_ne hexplore] at hx
    rw [List.count_cons_of_ne hscan, List.count_append, List.count_replicate_self, Nat.add_mul,
      Nat.one_mul]
    omega
  least := by
    have hc := Finset.card_insert_le m (names.toFinset.filter (s₀.LacksList ·))
    have hs : ((insert m names.toFinset).filter (s₀.LacksList ·)).card ≤
        (insert m (names.toFinset.filter (s₀.LacksList ·))).card := by
      rw [Finset.filter_insert, if_pos (h.listsStay m hm)]
    rw [List.toFinset_cons]
    exact Nat.le_trans hs (Nat.le_trans hc (Nat.add_le_add_right h.least 1))
  most := by
    have hn : m = name → name ∉ names := by
      rintro rfl hn
      -- Nothing was asked for before the first component.
      obtain ⟨rfl, -⟩ := h.first.resolve_right (not_not.2 hm)
      have hl := h.names_perm.length_eq
      have hpos := List.length_pos_of_mem hn
      have hs : (Task.explore m).sought? = some m := rfl
      rw [List.length_append, List.filterMap_cons_some hs] at hl
      simp only [List.length_cons, List.map_nil, List.length_nil] at hl
      omega
    rw [mostScans_cons (h.listsStay m hm) hn]
    exact Nat.succ_le_succ h.most

/-- A cell asks for its text when it begins. -/
theorem cell_next {s' : Session} {old new : Cell}
    (h : s₀.Asked name paths names scans texts s visited (old.tasks ++ tasks))
    (hn : old.Next files m s s' new) :
    ∃ texts', s₀.Asked name paths names scans texts' s' visited (new.tasks ++ tasks) := by
  cases hn with
  | known ht => exact ⟨_, h.count (n := 1) (spends_textHit s) rfl rfl⟩
  | ask ht => exact ⟨_, h.count (n := 1) (spends_request _ s) rfl rfl⟩
  | take hr =>
    rename_i r
    exact ⟨_, h.count (n := 0) (spends_takeText files r s) rfl rfl⟩
  | settle hr => exact ⟨_, h.count (n := 0) (spends_endRead _ _ s) (calls_endRead ..) rfl⟩

/-- The importers of a component arrive and are kept. -/
theorem gather (h : s₀.Asked name paths names scans texts s visited (.scan m :: tasks))
    {g : Importers} (ht : s.Spends {} { s with importers := g })
    (hg : ∀ n, g.lists.get? n = if n = m then some found else s.importers.lists.get? n) :
    s₀.Asked name paths names scans texts { s with importers := g } visited
      (found.map .visit ++ tasks) where
  paths_perm := by
    rw [filterMap_entered_visits]
    exact h.paths_perm
  names_perm := by
    rw [filterMap_sought_visits]
    exact h.names_perm
  looked p hp := h.looked p (by simpa using hp)
  scanned n hn := h.scanned n (List.mem_cons_of_mem _ (by simpa using hn))
  calls := h.calls
  callsKept p hp := (h.callsKept p hp).imp_left fun hl => by simpa using hl
  lists n hn := by
    have hne : n ≠ m := fun he => hn (he ▸ h.scanned m List.mem_cons_self)
    rw [hg, if_neg hne, h.lists n hn]
  listsKept n hn := by
    simp only [LacksList, hg]
    by_cases he : n = m
    · exact .inr (by simp [he])
    · rw [if_neg he]
      exact (h.listsKept n hn).imp_left fun hl => by simpa [he] using hl
  listsStay n hn := by
    simp only [LacksList, hg] at hn
    split at hn
    · cases hn
    · exact h.listsStay n hn
  first := by
    refine .inr (h.first_of_kept (.inl (h.scanned m List.mem_cons_self)) (by simp [LacksList, hg])
      fun n hn => ?_)
    simp only [LacksList, hg] at hn
    split at hn
    · cases hn
    · exact hn
  cost := h.cost.trans ht
  texts := by
    rw [count_text_visits]
    simpa using h.texts
  least := h.least
  most := h.most

end Asked
end Session

/-- Calls whose path was not dropped meanwhile are kept. -/
theorem Contents.get?_keepCalls {c : Contents} {path : String} {mark : Mark}
    (hm : c.markOf path = mark) (calls : List String) (p : String) :
    (c.keepCalls path mark calls).calls.get? p =
      if p = path then some calls else c.calls.get? p := by
  rw [keepCalls, if_pos hm]
  exact Table.get?_insert ..

theorem Contents.get?_keepCalls_self {c : Contents} {path : String} {mark : Mark}
    (hm : c.markOf path = mark) (calls : List String) :
    (c.keepCalls path mark calls).calls.get? path ≠ none := by
  rw [get?_keepCalls hm, if_pos rfl]
  exact nofun

namespace Instant.Seeking
open Session
variable {files : Files} {s₀ : Session} {name : String} {b : Nat} {m m' : Instant}

/-- Whatever follows on an instant of the search, what it asked for is known and paid. -/
theorem asked_next (h : m.Seeking files s₀ name b) (hn : m.Next files m')
    (ha : ∃ paths names scans texts, s₀.Asked name paths names scans texts m.session
      m.flight.visited (m.tasks b)) :
    ∃ paths names scans texts, s₀.Asked name paths names scans texts m'.session
      m'.flight.visited (m'.tasks b) := by
  obtain ⟨paths, names, scans, texts, ha⟩ := ha
  cases hn with
  | skip hv => exact ⟨_, _, _, _, ha.skip⟩
  | enter hv => exact ⟨_, _, _, _, ha.enter⟩
  | textKnown ht => exact absurd List.mem_cons_self h.searches
  | askText ht => exact absurd List.mem_cons_self h.searches
  | takeText hr => exact absurd List.mem_cons_self h.searches
  | endText hr => exact absurd List.mem_cons_self h.searches
  | callsKnown hc =>
    rename_i s fl path calls
    have hk : ¬ s.LacksCalls path := by simp [LacksCalls, hc]
    exact ⟨_, _, _, _, ha.lookUp h.nodup (if_neg hk).symm (spends_callsHit s) (fun _ _ => rfl) rfl
      (.inr ⟨rfl, hk⟩)⟩
  | callsOfKnown hc ht =>
    rename_i s fl path text
    have hs := ((spends_callsMiss s).trans (spends_textHit _)).trans
      (spends_keepCalls path (s.contents.markOf path) (Contents.callsIn text) _)
    have hm : s.contents.countCallsMiss.countTextHit.markOf path = s.contents.markOf path := rfl
    have hk := Contents.get?_keepCalls hm (Contents.callsIn text)
    exact ⟨_, _, _, _, ha.lookUp h.nodup (if_pos hc).symm hs (fun p hp => (hk p).trans (if_neg hp))
      rfl (.inr ⟨rfl, Contents.get?_keepCalls_self hm _⟩)⟩
  | askCalls hc ht =>
    rename_i s fl path
    have hs := (spends_callsMiss s).trans (spends_request path _)
    exact ⟨_, _, _, _, ha.lookUp h.nodup (if_pos hc).symm hs (fun _ _ => rfl) rfl (.inl rfl)⟩
  | takeCalls hr =>
    rename_i s fl r
    exact ⟨_, _, _, _, ha.count (n := 0) (spends_takeText files r s) rfl rfl⟩
  | endCalls hr =>
    rename_i s fl r text?
    have hd : (s.endRead r text?).standing = s₀.standing :=
      (Invariant.standing_endRead r text? s).trans h.undropped.standing
    have hm : (s.endRead r text?).contents.markOf r.path = r.mark :=
      (congrArg (Standing.markOf · r.path) hd).trans (Eq.symm h.undropped.stage)
    have hs := (spends_endRead r text? s).trans
      (spends_keepCalls r.path r.mark (Contents.callsIn (Contents.textRead text?)) _)
    have hk := Contents.get?_keepCalls hm (Contents.callsIn (Contents.textRead text?))
    refine ⟨_, _, _, _, ha.arrive hs (Contents.get?_keepCalls_self hm _) (fun p hp => ?_) rfl⟩
    rw [hk, if_neg hp, calls_endRead]
  | tell hc => cases hc.symm.trans h.call
  | report hc => exact ⟨_, _, _, _, ha.report⟩
  | listKnown hl => exact ⟨_, _, _, _, ha.listed hl⟩
  | scan hl =>
    rename_i s fl n
    have hc : s.candidates = s₀.candidates := h.candidates
    have ht : (s.candidates.map Cell.idle).flatMap Cell.tasks =
        List.replicate s₀.candidates.length .text := by
      rw [List.flatMap_map, hc]
      exact (List.flatMap_pure_eq_map (fun _ => Task.text) _).trans (List.map_const' ..)
    have hx := ha.scan hl
    rw [← ht] at hx
    exact ⟨_, _, _, _, hx⟩
  | cell ho hn =>
    rename_i s s' fl scan k old new
    obtain ⟨rest, hold, hnew⟩ := Scan.tasks_set ho new
    have hx := ha.perm (hold.append_right (fl.finish b).tasks)
    rw [List.append_assoc] at hx
    obtain ⟨texts, hx⟩ := hx.cell_next hn
    rw [← List.append_assoc] at hx
    exact ⟨_, _, _, _, hx.perm (hnew.symm.append_right _)⟩
  | gather hc =>
    rename_i s fl scan
    have he : s.importers.epoch = scan.epoch :=
      (congrArg Standing.listEpoch h.undropped.standing).trans (Eq.symm h.undropped.stage.1)
    have hx := ha.perm (.of_eq (congrArg (· ++ (fl.finish b).tasks) (Scan.tasks_of_isSettled hc)))
    refine ⟨_, _, _, _, hx.gather (spends_settle ..) fun n => ?_⟩
    rw [Importers.settle, if_pos he]
    exact Table.get?_insert ..
  | answer hc => cases hc.symm.trans h.call
  | spread hc =>
    rename_i s fl found
    refine ⟨_, _, _, _, ha.perm ?_⟩
    rw [tasks, tasks, Flight.tasks_spread h.steady.branch]
    exact List.perm_append_comm

end Instant.Seeking

namespace Session
variable {files : Files} {s t : Session} {name : String} {slots : Nat} {records : List Record}

/-- At the end of a search: it visited what can be reached, each file once, and has asked for nothing
else than the provide calls of these files and the importers of their components and of the first
one. -/
theorem Yields.asked (h : s.Yields files slots (.ancestors name) (.records records) t) :
    ∃ visited, s.Underway files name visited records [] [] [] ∧ s.Shows files t ∧
      ∃ paths names scans texts, s.Asked name paths names scans texts t visited [] := by
  obtain ⟨visited, ha, hu, hs, -⟩ := h.keeps_tasks
    (P := fun t visited tasks => ∃ paths names scans texts,
      s.Asked name paths names scans texts t visited tasks)
    (fun ht ⟨_, _, _, _, ha⟩ => ⟨_, _, _, _, ha.perm ht⟩)
    (fun hm hn ha => hm.asked_next hn ha) ⟨_, _, _, _, .start s name⟩
  exact ⟨visited, hu, hs, ha⟩

theorem card_filter_toFinset {l : List String} (hn : l.Nodup) (p : String → Prop)
    [DecidablePred p] : (l.toFinset.filter p).card = l.countP (p ·) := by
  have hf : l.toFinset.filter p = (l.filter (p ·)).toFinset := by
    ext x
    simp
  rw [hf, List.toFinset_card_of_nodup (hn.filter _), List.countP_eq_length_filter]

theorem mostScans_of_perm {names visited : List String}
    (hn : names.Perm (name :: visited.map componentName)) :
    s.mostScans name names =
      (visited.countP fun p => componentName p ≠ name ∧ s.LacksList (componentName p)) +
        if s.LacksList name then 1 else 0 := by
  have hin : name ∈ names := hn.mem_iff.2 List.mem_cons_self
  rw [mostScans, hn.countP_eq, List.countP_cons_of_neg (by simp), List.countP_map]
  simp only [hin, true_and, Function.comp_def]

/-- How many components there are whose importers are not kept, if no two files share one of them. -/
theorem card_unlisted (s : Session) (name : String) {above : Finset String}
    (h : Set.InjOn componentName {p | p ∈ above ∧ s.LacksList (componentName p)}) :
    ((insert name (above.image componentName)).filter (s.LacksList ·)).card =
      (above.filter fun p => componentName p ≠ name ∧ s.LacksList (componentName p)).card +
        if s.LacksList name then 1 else 0 := by
  let others := above.filter fun p => componentName p ≠ name ∧ s.LacksList (componentName p)
  have hi : (others.image componentName).card = others.card := by
    refine Finset.card_image_of_injOn (h.mono fun p hp => ?_)
    obtain ⟨hp, -, hl⟩ := Finset.mem_filter.1 hp
    exact ⟨hp, hl⟩
  have hn : name ∉ others.image componentName := by
    rw [Finset.mem_image]
    rintro ⟨p, hp, he⟩
    exact (Finset.mem_filter.1 hp).2.1 he
  rw [← hi, Finset.filter_insert, Finset.filter_image]
  split
  · rename_i hl
    have hs : insert name ((above.filter fun p => s.LacksList (componentName p)).image componentName) =
        insert name (others.image componentName) := by
      ext m
      simp only [others, Finset.mem_insert, Finset.mem_image, Finset.mem_filter]
      constructor
      · rintro (hm | ⟨p, ⟨hp, hm⟩, rfl⟩)
        · exact .inl hm
        · by_cases he : componentName p = name
          · exact .inl he
          · exact .inr ⟨p, ⟨hp, he, hm⟩, rfl⟩
      · rintro (hm | ⟨p, ⟨hp, -, hm⟩, rfl⟩)
        · exact .inl hm
        · exact .inr ⟨p, ⟨hp, hm⟩, rfl⟩
    rw [hs]
    exact Finset.card_insert_of_notMem hn
  · rename_i hl
    have hs : (above.filter fun p => s.LacksList (componentName p)) = others :=
      Finset.filter_congr fun p _ => ⟨fun hm => ⟨fun he => hl (he ▸ hm), hm⟩, And.right⟩
    rw [hs]
    rfl

/-- Whatever a session keeps, whatever cycles and files of one name there are and in whatever order the
turns come, a search asks for the provide calls of each file above the component once, and for
importers once more than that. It looks for what was not kept: once for each file, and for importers
at least once for each component and at most once for the first component and once for each file of
another name. A file takes one text, a look for importers as many as there are candidates, and every
text that is not kept is read. Without two files of one name whose importers are not kept, the cost
does not depend on the order. -/
theorem search_cost (files : Files) (slots : Nat) (name : String) (s : Session) :
    ∃ above : Finset String, (∀ p, p ∈ above ↔ Reachable files s name p) ∧
      (0 < slots → ∃ records t, s.Yields files slots (.ancestors name) (.records records) t) ∧
      ∀ records t, s.Yields files slots (.ancestors name) (.records records) t →
        let fresh := (above.filter (s.LacksCalls ·)).card
        let unlisted := (insert name (above.image componentName)).filter (s.LacksList ·)
        let others := above.filter fun p => componentName p ≠ name ∧ s.LacksList (componentName p)
        ∃ scans, unlisted.card ≤ scans ∧
          scans ≤ others.card + (if s.LacksList name then 1 else 0) ∧
          (Set.InjOn componentName {p | p ∈ above ∧ s.LacksList (componentName p)} →
            scans = unlisted.card) ∧
          s.Spends
            { calls := above.card
              freshCalls := fresh
              lists := 1 + above.card
              freshLists := scans
              texts := scans * s.candidates.length + fresh } t ∧
          t.statistics.fileReads - s.statistics.fileReads =
            t.statistics.contentMisses - s.statistics.contentMisses := by
  obtain ⟨order, -, hm, -⟩ := exists_visit_order files name s
  refine ⟨order.toFinset, fun p => by rw [List.mem_toFinset, hm],
    fun hs => exists_yields files hs name s, ?_⟩
  intro records t h fresh unlisted others
  obtain ⟨visited, hu, -, paths, names, scans, texts, ha⟩ := h.asked
  -- Nothing is left to do, so what was asked for is what was visited.
  have hp : paths.Perm visited := by simpa using ha.paths_perm
  have hnames : names.Perm (name :: visited.map componentName) := by simpa using ha.names_perm
  have hv : visited.toFinset = order.toFinset := by
    ext p
    rw [List.mem_toFinset, List.mem_toFinset, hu.mem_iff, hm]
  have hcard : visited.length = order.toFinset.card := by
    rw [← hv, List.toFinset_card_of_nodup hu.nodup]
  have hfresh : paths.countP (s.LacksCalls ·) = fresh := by
    rw [hp.countP_eq, ← card_filter_toFinset hu.nodup, hv]
  have hleast : unlisted.card ≤ scans := by
    have hi : names.toFinset = insert name (order.toFinset.image componentName) := by
      rw [List.toFinset_eq_of_perm _ _ hnames, List.toFinset_cons, ← hv]
      congr 1
      ext m
      simp
    have hl := ha.least
    rwa [hi] at hl
  have hmost : scans ≤ others.card + if s.LacksList name then 1 else 0 := by
    have hl := ha.most
    rwa [mostScans_of_perm hnames, ← card_filter_toFinset hu.nodup, hv] at hl
  refine ⟨scans, hleast, hmost, fun hinj => ?_, ?_, ?_⟩
  · refine Nat.le_antisymm ?_ hleast
    rw [card_unlisted s name hinj]
    exact hmost
  · have hc := ha.cost
    have ht : texts = scans * s.candidates.length + fresh := by
      rw [← hfresh]
      simpa using ha.texts
    have hlen : names.length = 1 + order.toFinset.card := by
      rw [hnames.length_eq, List.length_cons, List.length_map, hcard, Nat.add_comm]
    rwa [hp.length_eq, hcard, hfresh, hlen, ht] at hc
  · have hw := h.pays.waits
    omega

/-- Every file there is imports `N`. -/
def twinFiles : Files := fun _ => some "<script>import N from 'N'</script>provide(x, 1)"

/-- Two files of one name, both on their way to the importers of `A` after a search for those of `N`. -/
def twins : Session :=
  .new false ".vue" ["/d1/A.vue", "/d2/A.vue"]

theorem mem_twins_iff (p : String) :
    p ∈ ({"/d1/A.vue", "/d2/A.vue"} : Finset String) ↔ Reachable twinFiles twins "N" p := by
  have hn : twins.shownImporters twinFiles "N" = ["/d1/A.vue", "/d2/A.vue"] := by decide +kernel
  have ha : ∀ q ∈ ["/d1/A.vue", "/d2/A.vue"],
      twins.shownImporters twinFiles (componentName q) = [] := by decide +kernel
  constructor
  · exact fun hp => .importer (by simpa [hn] using hp)
  · intro hp
    induction hp with
    | importer hi => simpa [hn] using hi
    | above _ hq ih =>
      rw [ha _ (by simpa using ih)] at hq
      cases hq

/-- Both look for the importers of `A`: three scans for two names that are not listed. -/
theorem twins_scan_twice :
    let above : Finset String := {"/d1/A.vue", "/d2/A.vue"}
    let t := (Schedule.ask twinFiles 8 (.ancestors "N") twins).2
    (∀ p, p ∈ above ↔ Reachable twinFiles twins "N" p) ∧
      ((insert "N" (above.image componentName)).filter (twins.LacksList ·)).card = 2 ∧
      t.statistics.importerMisses = 3 ∧ t.statistics.providesMisses = 2 ∧
      t.statistics.contentHits + t.statistics.contentMisses = 8 := by
  intro above t
  refine ⟨mem_twins_iff, ?_⟩
  decide +kernel

/-- Two and three scans are what the bounds allow there. -/
theorem search_cost_twins :
    ∃ records t, twins.Yields twinFiles 8 (.ancestors "N") (.records records) t ∧
      2 ≤ t.statistics.importerMisses ∧ t.statistics.importerMisses ≤ 3 := by
  obtain ⟨above, hm, hs, hcost⟩ := search_cost twinFiles 8 "N" twins
  obtain ⟨records, t, h⟩ := hs (by decide)
  obtain rfl : above = {"/d1/A.vue", "/d2/A.vue"} := by
    ext p
    rw [hm, mem_twins_iff]
  obtain ⟨scans, hleast, hmost, -, hspends, -⟩ := hcost records t h
  refine ⟨records, t, h, ?_⟩
  have hl : ((insert "N" (({"/d1/A.vue", "/d2/A.vue"} : Finset String).image componentName)).filter
      (twins.LacksList ·)).card = 2 := by decide +kernel
  have hu : (({"/d1/A.vue", "/d2/A.vue"} : Finset String).filter
      fun p => componentName p ≠ "N" ∧ twins.LacksList (componentName p)).card = 2 := by
    decide +kernel
  have hz : twins.statistics.importerMisses = 0 := by decide +kernel
  have hf := hspends.freshLists
  rw [hl] at hleast
  rw [hu] at hmost
  split at hmost <;> simp only [hz] at hf <;> omega

end Session
end Ancestry
