import Ancestry.Proofs.Session.Solo

/-!
What is due in a search that has a session to itself. A file that it came to is to be visited, a
candidate of a scan to be looked at, and a scan to end once all of its cells have settled. What
becomes due by a turn is what is due in the branches that came of the turn, so a queue that holds
all that is due goes on to do so.
-/

namespace Ancestry
variable {files : Files} {s : Session} {fl fl' : Flight} {slots b k : Nat}
variable {queue : List (Due × Place)}

theorem zipIdx_set {α : Type} (l : List α) (i : Nat) (x : α) :
    (l.set i x).zipIdx = l.zipIdx.set i (x, i) := by
  refine List.ext_getElem? fun j => ?_
  simp only [List.getElem?_zipIdx, List.getElem?_set, List.length_zipIdx]
  split
  · rename_i h
    subst h
    split <;> simp
  · rfl

theorem flatMap_zipIdx_set_perm {α β : Type} (f : α → Nat → List β) {l : List α} {y : α}
    (hb : b < l.length) (hy : f y b = []) (x : α) :
    ((l.set b x).zipIdx.flatMap fun e => f e.1 e.2).Perm
      (f x b ++ (l.set b y).zipIdx.flatMap fun e => f e.1 e.2) := by
  rw [zipIdx_set, zipIdx_set]
  have hb' : b < l.zipIdx.length := by rwa [List.length_zipIdx]
  exact flatMap_set_perm (fun e : α × Nat => f e.1 e.2) hb' (y := (y, b)) hy (x, b)

/-- What is due in a cell of a scan. -/
def Cell.dues (place : Place) : Cell → List (Due × Place)
  | idle _ => [(.start, place)]
  | _ => []

/-- What is due in the cells of a scan. -/
def Scan.dues (b : Nat) (scan : Scan) : List (Due × Place) :=
  scan.cells.zipIdx.flatMap fun e => e.1.dues ⟨0, b, some e.2⟩

/-- What is due in a branch of the only call: a file to visit, candidates to begin with, or the end
of a scan that has settled. -/
def Branch.dues (b : Nat) : Branch → List (Due × Place)
  | visiting _ => [(.start, ⟨0, b, none⟩)]
  | scanning scan => scan.dues b ++ if scan.isSettled then [(.gather, ⟨0, b, none⟩)] else []
  | _ => []

def Flight.dues (fl : Flight) : List (Due × Place) :=
  fl.branches.zipIdx.flatMap fun e => e.1.dues e.2

theorem Flight.dues_setBranch (hb : b < fl.branches.length) (branch : Branch) :
    (fl.setBranch b branch).dues.Perm (branch.dues b ++ (fl.finish b).dues) :=
  flatMap_zipIdx_set_perm (fun branch b => Branch.dues b branch) hb (y := .finished) rfl branch

/-- The visits that are due for the files that are handed on. -/
def dueVisits (first count : Nat) : List (Due × Place) :=
  (List.range' first count).map fun b => (.start, ⟨0, b, none⟩)

theorem Flight.dues_append (fl : Flight) (found : List String) :
    ({ fl with branches := fl.branches ++ found.map .visiting } : Flight).dues =
      fl.dues ++ dueVisits fl.branches.length found.length := by
  have hv : ∀ n, ((found.map Branch.visiting).zipIdx n).flatMap (fun e => e.1.dues e.2) =
      dueVisits n found.length := by
    induction found with
    | nil => exact fun n => rfl
    | cons path found ih =>
      intro n
      rw [List.map_cons, List.zipIdx_cons, List.flatMap_cons, ih, dueVisits, dueVisits,
        List.length_cons, List.range'_succ]
      rfl
  rw [dues, List.zipIdx_append, List.flatMap_append, Nat.zero_add, hv, dues]

/-- A scan of which nothing is known yet. -/
theorem Scan.dues_idle (name : String) (epoch : Nat) (paths : List String) :
    (Scan.dues b ⟨name, epoch, paths.map .idle⟩) =
      (List.range paths.length).map fun k => (.start, ⟨0, b, some k⟩) := by
  have hc : ∀ n, ((paths.map Cell.idle).zipIdx n).flatMap (fun e => e.1.dues ⟨0, b, some e.2⟩) =
      (List.range' n paths.length).map fun k => (Due.start, (⟨0, b, some k⟩ : Place)) := by
    induction paths with
    | nil => exact fun n => rfl
    | cons path paths ih =>
      intro n
      rw [List.map_cons, List.zipIdx_cons, List.flatMap_cons, ih, List.length_cons,
        List.range'_succ]
      rfl
  rw [dues, hc, List.range_eq_range']

theorem Scan.dues_set {scan : Scan} (hk : k < scan.cells.length) (cell : Cell) :
    (Scan.dues b { scan with cells := scan.cells.set k cell }).Perm
      (cell.dues ⟨0, b, some k⟩ ++
        Scan.dues b { scan with cells := scan.cells.set k (.settled "" false) }) :=
  flatMap_zipIdx_set_perm (fun cell k => Cell.dues ⟨0, b, some k⟩ cell) hk
    (y := .settled "" false) rfl cell

/-- A candidate that is not looked at is one more to look at. -/
theorem Scan.dues_of_idle {scan : Scan} {path : String} (hk : scan.cells[k]? = some (.idle path)) :
    (scan.dues b).Perm ((.start, ⟨0, b, some k⟩) ::
      Scan.dues b { scan with cells := scan.cells.set k (.settled "" false) }) := by
  obtain ⟨hlt, hget⟩ := List.getElem?_eq_some_iff.1 hk
  have hset := Scan.dues_set (b := b) hlt (.idle path)
  have hself : scan.cells.set k (.idle path) = scan.cells := by
    rw [← hget, List.set_getElem_self]
  rw [hself] at hset
  exact hset

theorem Scan.dues_of_isSettled {scan : Scan} (h : scan.isSettled) : scan.dues b = [] := by
  rw [dues, List.flatMap_eq_nil_iff]
  intro e he
  have hs := List.all_eq_true.1 h e.1 (List.fst_mem_of_mem_zipIdx he)
  cases hc : e.1 with
  | settled path imports => rfl
  | _ => simp [hc, Cell.isSettled] at hs

/-! ### Where a turn leads -/

/-- What the branches of a search come to where one of them has asked for importers: there are files
to visit, or a scan is to begin. -/
inductive Rises (b : Nat) (old new : List Branch) : Prop
  | found (found : List String) (h : new = old.set b .finished ++ found.map .visiting)
  | scan (name : String) (epoch : Nat) (paths : List String) (hp : paths ≠ [])
      (h : new = old.set b (.scanning ⟨name, epoch, paths.map .idle⟩))

theorem Flight.branches_withImporters (hc : fl.call.IsSearch) (found : List String) :
    (fl.withImporters b found).branches =
      fl.branches.set b .finished ++ found.map .visiting := by
  simp only [withImporters]
  split
  · rename_i h
    have h' : fl.call = _ := h
    rw [h'] at hc
    exact hc.elim
  · rfl

namespace Session

theorem rises_explore (hc : fl.call.IsSearch) (name : String) (s : Session) :
    Rises b fl.branches (s.explore b name fl).2.branches := by
  unfold explore
  split
  · rename_i found _
    exact .found found (Flight.branches_withImporters hc found)
  · simp only
    split
    · exact .found _ (Flight.branches_withImporters hc _)
    · exact .scan name _ s.candidates ‹_› rfl

theorem rises_withCalls (hc : fl.call.IsSearch) (path : String) (calls : List String)
    (s : Session) : Rises b fl.branches (s.withCalls b path calls fl).2.branches := by
  simp only [withCalls]
  split
  · rename_i h
    rw [h] at hc
    exact hc.elim
  · let fl' : Flight := { fl with
      records := if calls = [] then fl.records else fl.records ++ [recordOf path calls] }
    have hc' : fl'.call.IsSearch := hc
    exact rises_explore hc' (componentName path) s

theorem exists_endScan (hc : fl.call.IsSearch) (scan : Scan) (s : Session) :
    ∃ found : List String, (s.endScan b scan fl).2.branches =
      fl.branches.set b .finished ++ found.map .visiting :=
  ⟨_, Flight.branches_withImporters hc _⟩

/-- A file that is looked up: its calls are known, or it is to be read. -/
theorem lookUp_cases (hc : fl.call.IsSearch) (path : String) (s : Session) :
    Rises b fl.branches (s.lookUp b path fl).2.branches ∨
      ∃ r, r.state = .waiting ∧
        (s.lookUp b path fl).2.branches = fl.branches.set b (.looking r) := by
  simp only [lookUp]
  split
  · exact .inl (rises_withCalls hc path _ _)
  · split
    · exact .inl (rises_withCalls hc path _ _)
    · exact .inr ⟨_, rfl, rfl⟩

theorem visit_cases (hc : fl.call.IsSearch) (path : String) (s : Session) :
    Rises b fl.branches (s.visit b path fl).2.branches ∨
      ∃ r, r.state = .waiting ∧
        (s.visit b path fl).2.branches = fl.branches.set b (.looking r) := by
  unfold visit
  split
  · exact .inl (.found [] (List.append_nil _).symm)
  · let fl' : Flight := { fl with visited := path :: fl.visited }
    have hc' : fl'.call.IsSearch := hc
    exact lookUp_cases hc' path s

end Session

/-- No read is under way. -/
def Flight.Quiet (fl : Flight) : Prop :=
  ∀ branch ∈ fl.branches, branch.reads = []

theorem Rises.quiet (h : Rises b fl.branches fl'.branches) (hq : (fl.finish b).Quiet) :
    fl'.Quiet := by
  cases h with
  | found found h =>
    intro branch hm
    rw [h] at hm
    rcases List.mem_append.1 hm with hm | hm
    · exact hq branch hm
    · obtain ⟨path, -, rfl⟩ := List.mem_map.1 hm
      rfl
  | scan name epoch paths hp h =>
    intro branch hm
    rw [h, ← List.set_set (a := .finished)] at hm
    rcases List.mem_or_eq_of_mem_set hm with hm | rfl
    · exact hq branch hm
    · simp [Branch.reads, List.filterMap_map]

theorem Flight.dues_congr (h : fl'.branches = fl.branches) : fl'.dues = fl.dues := by
  rw [dues, dues, h]

theorem consequences_visits {before : Flight} {count : Nat} (hp : before.branches ≠ [])
    (hn : fl.branches.length = before.branches.length + count) :
    ((List.range fl.branches.length).drop (before.branches.length.max 1)).map
      (fun b => (Due.start, ({ flight := 0, branch := b } : Place))) =
        dueVisits before.branches.length count := by
  have hm : before.branches.length.max 1 = before.branches.length :=
    Nat.max_eq_left (List.length_pos_iff.2 hp)
  rw [hn, hm, List.range_eq_range', List.drop_range', dueVisits]
  simp

/-- Where files to visit were found, it is their visits that become due. -/
theorem Flight.dues_found {found : List String}
    (h : fl'.branches = fl.branches.set b .finished ++ found.map .visiting) {branch : Branch}
    (hb : fl.branches[b]? = some branch) (s : Session) :
    fl'.dues = (fl.finish b).dues ++
      Schedule.consequences (some fl) ⟨s, slots, [fl']⟩ ⟨0, b, none⟩ := by
  have hlt : b < fl.branches.length := (List.getElem?_eq_some_iff.1 hb).1
  have hne : fl.branches ≠ [] := List.ne_nil_of_length_pos (Nat.zero_lt_of_lt hlt)
  have hlen : fl'.branches.length = fl.branches.length + found.length := by simp [h]
  have hf : fl'.branches[b]? = some .finished := by
    rw [h, List.getElem?_append_left (by simpa using hlt), List.getElem?_set_self hlt]
  have hd : fl'.dues = (fl.finish b).dues ++ dueVisits fl.branches.length found.length := by
    have ha := (fl.finish b).dues_append found
    have hl : (fl.finish b).branches.length = fl.branches.length := List.length_set
    rw [hl] at ha
    rw [← ha]
    exact Flight.dues_congr h
  rw [hd]
  simp only [Schedule.consequences, List.getElem?_cons_zero, Option.map_some, Option.getD_some,
    consequences_visits hne hlen, hf, hb]
  cases branch <;> simp

/-- Where a scan is to begin, it is the looks at its candidates that become due. -/
theorem Flight.dues_scan {name : String} {epoch : Nat} {paths : List String} (hp : paths ≠ [])
    (h : fl'.branches = fl.branches.set b (.scanning ⟨name, epoch, paths.map .idle⟩))
    {branch : Branch} (hb : fl.branches[b]? = some branch) (hn : ∀ scan, branch ≠ .scanning scan)
    (s : Session) :
    fl'.dues.Perm ((fl.finish b).dues ++
      Schedule.consequences (some fl) ⟨s, slots, [fl']⟩ ⟨0, b, none⟩) := by
  have hlt : b < fl.branches.length := (List.getElem?_eq_some_iff.1 hb).1
  have hne : fl.branches ≠ [] := List.ne_nil_of_length_pos (Nat.zero_lt_of_lt hlt)
  have hlen : fl'.branches.length = fl.branches.length + 0 := by simp [h]
  have hf : fl'.branches[b]? = some (.scanning ⟨name, epoch, paths.map .idle⟩) := by
    rw [h, List.getElem?_set_self hlt]
  have hu : Scan.isSettled ⟨name, epoch, paths.map .idle⟩ = false := by
    obtain ⟨path, rest, rfl⟩ := List.exists_cons_of_ne_nil hp
    rfl
  have hd : fl'.dues.Perm (Branch.dues b (.scanning ⟨name, epoch, paths.map .idle⟩) ++
      (fl.finish b).dues) := by
    have hset := Flight.dues_setBranch hlt (.scanning ⟨name, epoch, paths.map .idle⟩)
    exact (List.Perm.of_eq (Flight.dues_congr h)).trans hset
  rw [Branch.dues, Scan.dues_idle, hu, if_neg Bool.false_ne_true, List.append_nil] at hd
  simp only [Schedule.consequences, List.getElem?_cons_zero, Option.map_some, Option.getD_some,
    consequences_visits hne hlen, hf, hb]
  cases branch with
  | scanning scan => exact absurd rfl (hn scan)
  | _ => simpa [dueVisits] using hd.trans List.perm_append_comm

/-- What becomes due where importers were asked for is due in the branches that came of it. -/
theorem Rises.dues (h : Rises b fl.branches fl'.branches) {branch : Branch}
    (hb : fl.branches[b]? = some branch) (hn : ∀ scan, branch ≠ .scanning scan) (s : Session) :
    fl'.dues.Perm ((fl.finish b).dues ++
      Schedule.consequences (some fl) ⟨s, slots, [fl']⟩ ⟨0, b, none⟩) := by
  cases h with
  | found found h => rw [Flight.dues_found h hb s]
  | scan name epoch paths hp h => exact Flight.dues_scan hp h hb hn s

namespace Schedule

/-- Nothing becomes due where the provide calls of a file are to be read. -/
theorem consequences_looking {r : Read} (hb : fl.branches[b]? = some (.visiting path))
    (hn : fl'.branches = fl.branches.set b (.looking r)) (t : Session) :
    consequences (some fl) ⟨t, slots, [fl']⟩ ⟨0, b, none⟩ = [] := by
  have hlt : b < fl.branches.length := (List.getElem?_eq_some_iff.1 hb).1
  have hne : fl.branches ≠ [] := List.ne_nil_of_length_pos (Nat.zero_lt_of_lt hlt)
  have hlen : fl'.branches.length = fl.branches.length + 0 := by simp [hn]
  have hf : fl'.branches[b]? = some (.looking r) := by rw [hn, List.getElem?_set_self hlt]
  simp [consequences, consequences_visits hne hlen, hb, hf, dueVisits]

/-- The end of a scan is due when its last cell settles. -/
theorem consequences_setCell {scan : Scan} (hb : fl.branches[b]? = some (.scanning scan))
    (hk : k < scan.cells.length) (cell : Cell) (t : Session) :
    consequences (some fl) ⟨t, slots, [Pool.setCell fl b scan k cell]⟩ ⟨0, b, some k⟩ =
      if Scan.isSettled { scan with cells := scan.cells.set k cell } then
        [(.joined, ⟨0, b, none⟩)] else [] := by
  have hlt : b < fl.branches.length := (List.getElem?_eq_some_iff.1 hb).1
  have hne : fl.branches ≠ [] := List.ne_nil_of_length_pos (Nat.zero_lt_of_lt hlt)
  have hlen : (Pool.setCell fl b scan k cell).branches.length = fl.branches.length + 0 :=
    List.length_set
  have hn : (Pool.setCell fl b scan k cell).branches[b]? =
      some (.scanning { scan with cells := scan.cells.set k cell }) := List.getElem?_set_self hlt
  have hc : Scan.isSettled { scan with cells := scan.cells.set k cell } → cell.isSettled := by
    intro h
    exact List.all_eq_true.1 h cell (List.mem_set hk cell)
  simp only [consequences, List.getElem?_cons_zero, Option.map_some, Option.getD_some,
    consequences_visits hne hlen, hb, hn, List.getElem?_set_self hk, dueVisits, List.range'_zero,
    List.map_nil, List.nil_append]
  by_cases h : Scan.isSettled { scan with cells := scan.cells.set k cell }
  · simp [h, hc h]
  · simp [h]

end Schedule

/-! ### What the queue holds -/

/-- An entry as it is in the end: where the last cell of a scan has settled, the scan is to end. -/
def Due.served : Due × Place → Due × Place
  | (.joined, place) => (.gather, place)
  | entry => entry

theorem Due.eq_of_served_start {e : Due × Place} {place : Place}
    (h : served e = (.start, place)) : e = (.start, place) := by
  obtain ⟨due, p⟩ := e
  cases due with
  | joined => cases h
  | _ => exact h

theorem Due.eq_of_served_gather {e : Due × Place} {place : Place}
    (h : served e = (.gather, place)) : e = (.gather, place) ∨ e = (.joined, place) := by
  obtain ⟨due, p⟩ := e
  cases due with
  | joined =>
    cases h
    exact .inr rfl
  | _ => exact .inl h

/-- All that is due in a call is in the queue, and no read is under way. -/
structure Flight.Tracked (fl : Flight) (queue : List (Due × Place)) : Prop where
  quiet : fl.Quiet
  dues : (queue.map Due.served).Perm fl.dues

theorem Flight.exists_branch {e : Due × Place} (h : e ∈ fl.dues) :
    ∃ (b : Nat) (branch : Branch), fl.branches[b]? = some branch ∧ e ∈ branch.dues b := by
  obtain ⟨⟨branch, b⟩, hm, he⟩ := List.mem_flatMap.1 h
  exact ⟨b, branch, List.mem_zipIdx_iff_getElem?.1 hm, he⟩

/-- A file is to be visited, a candidate is to be looked at, or a scan is to end. -/
theorem Branch.dues_cases {branch : Branch} {e : Due × Place} (h : e ∈ branch.dues b) :
    (∃ path, branch = .visiting path ∧ e = (.start, ⟨0, b, none⟩)) ∨
      (∃ scan k path, branch = .scanning scan ∧ scan.cells[k]? = some (.idle path) ∧
        e = (.start, ⟨0, b, some k⟩)) ∨
      ∃ scan, branch = .scanning scan ∧ scan.isSettled ∧ e = (.gather, ⟨0, b, none⟩) := by
  cases branch with
  | visiting path => exact .inl ⟨path, rfl, List.mem_singleton.1 h⟩
  | scanning scan =>
    refine .inr ?_
    rcases List.mem_append.1 h with h | h
    · obtain ⟨⟨cell, k⟩, hm, he⟩ := List.mem_flatMap.1 h
      cases cell with
      | idle path =>
        exact .inl ⟨scan, k, path, rfl, List.mem_zipIdx_iff_getElem?.1 hm, List.mem_singleton.1 he⟩
      | _ => cases he
    · split at h
      · exact .inr ⟨scan, rfl, ‹_›, List.mem_singleton.1 h⟩
      · cases h
  | _ => cases h

theorem Flight.served_of_mem_dues {e : Due × Place} (h : e ∈ fl.dues) :
    Due.served e = e ∧ e.1 ≠ .joined := by
  obtain ⟨b, branch, -, he⟩ := Flight.exists_branch h
  obtain ⟨_, -, rfl⟩ | ⟨_, _, _, -, -, rfl⟩ | ⟨_, -, -, rfl⟩ := Branch.dues_cases he
  · exact ⟨rfl, by simp⟩
  · exact ⟨rfl, by simp⟩
  · exact ⟨rfl, by simp⟩

namespace Flight

theorem Quiet.finish (h : fl.Quiet) (b : Nat) : (fl.finish b).Quiet := by
  intro branch hm
  rcases List.mem_or_eq_of_mem_set hm with hm | rfl
  · exact h branch hm
  · rfl

/-- What is due in one branch and what is due in the others. -/
theorem dues_perm {branch : Branch} (hb : fl.branches[b]? = some branch) :
    fl.dues.Perm (branch.dues b ++ (fl.finish b).dues) := by
  have h := dues_setBranch (List.getElem?_eq_some_iff.1 hb).1 branch
  rwa [setBranch_self hb] at h

/-- What becomes due in one branch comes behind what was due in the others. -/
theorem Tracked.append (h : (fl.finish b).Tracked queue) (hq : fl'.Quiet)
    {more : List (Due × Place)} (hd : fl'.dues.Perm ((fl.finish b).dues ++ more)) :
    fl'.Tracked (queue ++ more) ∧ ∀ e ∈ more, e.1 ≠ .joined := by
  have hm : ∀ e ∈ more, Due.served e = e ∧ e.1 ≠ .joined := fun e he =>
    served_of_mem_dues (hd.mem_iff.2 (List.mem_append_right _ he))
  refine ⟨⟨hq, ?_⟩, fun e he => (hm e he).2⟩
  have hmap : more.map Due.served = more := by
    simpa using List.map_congr_left (g := id) fun e he => (hm e he).1
  rw [List.map_append, hmap]
  exact (h.dues.append_right more).trans hd.symm

end Flight

theorem Flight.Tracked.congr (h : fl.Tracked queue)
    (hb : fl'.branches = fl.branches) : fl'.Tracked queue := by
  refine ⟨?_, ?_⟩
  · rw [Flight.Quiet, hb]
    exact h.quiet
  · rw [Flight.dues_congr hb]
    exact h.dues

/-- A cell that settles is nothing more to look at; with the last one the scan is to end. -/
theorem tracked_settled {scan : Scan} (hq : fl.Quiet) (hb : fl.branches[b]? = some (.scanning scan))
    (hk : k < scan.cells.length)
    (h : (queue.map Due.served).Perm
      (Scan.dues b { scan with cells := scan.cells.set k (.settled "" false) } ++
        (fl.finish b).dues))
    (path : String) (imports : Bool) :
    (Pool.setCell fl b scan k (.settled path imports)).Tracked (queue ++
      if Scan.isSettled { scan with cells := scan.cells.set k (.settled path imports) } then
        [(.joined, ⟨0, b, none⟩)] else []) := by
  let scan' : Scan := { scan with cells := scan.cells.set k (.settled path imports) }
  have hlt : b < fl.branches.length := (List.getElem?_eq_some_iff.1 hb).1
  constructor
  · intro branch hm
    rcases List.mem_or_eq_of_mem_set hm with hm | rfl
    · exact hq branch hm
    · have hr : (Branch.scanning scan).reads = [] := hq _ (List.mem_of_getElem? hb)
      rw [Branch.reads, List.filterMap_eq_nil_iff] at hr ⊢
      intro cell hc
      rcases List.mem_or_eq_of_mem_set hc with hc | rfl
      · exact hr cell hc
      · rfl
  · have hmap : (if scan'.isSettled then [(Due.joined, (⟨0, b, none⟩ : Place))] else []).map
        Due.served = if scan'.isSettled then [(.gather, ⟨0, b, none⟩)] else [] := by
      split <;> rfl
    have hset : (scan'.dues b).Perm
        (Scan.dues b { scan with cells := scan.cells.set k (.settled "" false) }) :=
      Scan.dues_set hk (.settled path imports)
    have hd := Flight.dues_setBranch hlt (.scanning scan')
    rw [List.map_append, hmap]
    refine .trans ?_ hd.symm
    rw [Branch.dues, List.append_assoc]
    refine (h.append_right _).trans ?_
    rw [List.append_assoc]
    exact (hset.symm).append List.perm_append_comm

theorem Scan.isSettled_of_dues {scan : Scan} (hd : scan.dues b = [])
    (hr : (Branch.scanning scan).reads = []) : scan.isSettled := by
  refine List.all_eq_true.2 fun cell hc => ?_
  obtain ⟨k, hk⟩ := List.mem_iff_getElem?.1 hc
  cases cell with
  | settled path imports => rfl
  | idle path =>
    have hn := List.flatMap_eq_nil_iff.1 hd (.idle path, k) (List.mem_zipIdx_iff_getElem?.2 hk)
    cases hn
  | reading r =>
    have hn := List.filterMap_eq_nil_iff.1 hr _ hc
    cases hn

/-- Where nothing is due and nothing is read, all is at its end. -/
theorem Flight.Tracked.finished (h : fl.Tracked []) :
    ∀ branch ∈ fl.branches, branch = .finished := by
  intro branch hm
  obtain ⟨b, hb⟩ := List.mem_iff_getElem?.1 hm
  have hd : branch.dues b = [] := by
    have hn : fl.dues = [] := h.dues.symm.eq_nil
    exact (List.append_eq_nil_iff.1 (hn ▸ Flight.dues_perm hb).nil_eq.symm).1
  have hr := h.quiet branch hm
  cases branch with
  | finished => rfl
  | visiting path => cases hd
  | reading r => cases hr
  | looking r => cases hr
  | scanning scan =>
    obtain ⟨hs, hg⟩ := List.append_eq_nil_iff.1 hd
    rw [if_pos (Scan.isSettled_of_dues hs hr)] at hg
    cases hg

end Ancestry
