import Ancestry.Proofs.Session.Counters
import Ancestry.Proofs.Session.Solo

/-!
What a search still has to do, task by task. A search that has the session to itself finds nothing
dropped that it asked for, so a statement about the session, the files visited and the tasks that are
left is carried through the whole search once each instant carries it on; at the end there is no task.
-/

namespace Ancestry
variable {files : Files} {s₀ s t : Session} {name path : String} {fl : Flight} {b : Nat}

inductive Task where
  /-- A file is to be visited. -/
  | visit (path : String)
  /-- The provide calls of a visited file are to be asked for. -/
  | enter (path : String)
  /-- The provide calls of a visited file are on their way. -/
  | look (path : String)
  /-- The provide calls of a visited file are there. -/
  | report (path : String)
  /-- The importers of a component are to be asked for. -/
  | explore (name : String)
  /-- The importers of a component are on their way. -/
  | scan (name : String)
  /-- A scan is to ask for a text. -/
  | text
  /-- A text is asked for by a call that wants nothing else. -/
  | fetch
  deriving DecidableEq

def Cell.tasks : Cell → List Task
  | idle _ => [.text]
  | _ => []

def Branch.tasks : Branch → List Task
  | visiting path => [.visit path]
  | looking r => [.look r.path]
  | reading _ => [.fetch]
  | scanning scan => .scan scan.name :: scan.cells.flatMap Cell.tasks
  | finished => []

def Stage.tasks : Stage → List Task
  | resting branch => branch.tasks
  | opening _ => [.fetch]
  | entering path => [.enter path]
  | reporting path _ => [.report path]
  | exploring name => [.explore name]
  | ascending found => found.map .visit

def Flight.tasks (fl : Flight) : List Task :=
  fl.branches.flatMap Branch.tasks

/-- What a call has to do in the middle of a turn of branch `b`. -/
def Instant.tasks (b : Nat) (m : Instant) : List Task :=
  m.stage.tasks ++ (m.flight.finish b).tasks

theorem Flight.tasks_setBranch (hb : b < fl.branches.length) (branch : Branch) :
    (fl.setBranch b branch).tasks.Perm (branch.tasks ++ (fl.finish b).tasks) :=
  flatMap_set_perm Branch.tasks hb rfl branch

/-- The files that are handed on are tasks of the branches that come for them. -/
theorem Flight.tasks_spread (hb : b < fl.branches.length) (found : List String) :
    ({ fl with branches := fl.branches ++ found.map Branch.visiting }.finish b).tasks =
      (fl.finish b).tasks ++ found.map .visit := by
  have hf : (found.map Branch.visiting).flatMap Branch.tasks = found.map .visit := by
    rw [List.flatMap_map]
    exact List.flatMap_pure_eq_map _ found
  rw [finish_spread hb, tasks, List.flatMap_append, hf, tasks]

theorem Scan.tasks_set {scan : Scan} {k : Nat} {old : Cell} (ho : scan.cells[k]? = some old)
    (new : Cell) : ∃ rest, (Branch.scanning scan).tasks.Perm (old.tasks ++ rest) ∧
      (Branch.scanning { scan with cells := scan.cells.set k new }).tasks.Perm
        (new.tasks ++ rest) := by
  have hk : k < scan.cells.length := (List.getElem?_eq_some_iff.1 ho).1
  have hy : Cell.tasks (.settled "" false) = [] := rfl
  refine ⟨.scan scan.name :: (scan.cells.set k (.settled "" false)).flatMap Cell.tasks, ?_, ?_⟩
  · exact ((flatMap_perm_of_getElem? Cell.tasks ho hy).cons _).trans List.perm_middle.symm
  · exact ((flatMap_set_perm Cell.tasks hk hy new).cons _).trans List.perm_middle.symm

theorem Scan.tasks_of_isSettled {scan : Scan} (h : scan.isSettled) :
    (Branch.scanning scan).tasks = [.scan scan.name] := by
  have hc : scan.cells.flatMap Cell.tasks = [] := by
    rw [List.flatMap_eq_nil_iff]
    intro cell hc
    have hs := List.all_eq_true.1 h cell hc
    cases cell with
    | settled path imports => rfl
    | _ => cases hs
  rw [Branch.tasks, hc]

/-- Nothing was dropped since a read or a scan began. -/
def undropped : Invariant where
  session _ := True
  read d r := r.mark = d.markOf r.path
  scan d epoch _ := epoch = d.listEpoch
  cell d _ _
    | .reading r => r.mark = d.markOf r.path
    | _ => True

theorem undropped_kept (files : Files) : undropped.Kept files where
  count _ _ _ := trivial
  request _ _ := rfl
  take h := h
  keepText _ _ _ := trivial
  keepCalls _ _ := trivial
  keepBoth _ _ _ := trivial
  openScan _ := rfl
  idleCell _ _ _ _ := trivial
  hitCell _ _ _ _ _ _ := trivial
  requestCell _ _ _ _ := rfl
  takeCell h := h
  readCell h := h
  settleCell _ _ := trivial
  settle _ _ _ _ _ := trivial

/-- A search from `name` has the session to itself since it was `s₀`. -/
structure Flight.Seeking (files : Files) (s₀ : Session) (name : String) (s : Session)
    (fl : Flight) : Prop where
  call : fl.call = .ancestors name
  shows : s₀.Shows files s
  steady : fl.Steady files s₀
  standing : s.standing = s₀.standing
  undropped : undropped.flight s₀.standing fl
  searches : .fetch ∉ fl.tasks

/-- The same in the middle of a turn of branch `b`. -/
structure Instant.Seeking (files : Files) (s₀ : Session) (name : String) (b : Nat) (m : Instant) :
    Prop where
  call : m.flight.call = .ancestors name
  steady : m.Steady files s₀ b
  undropped : undropped.Holds s₀.standing m
  searches : .fetch ∉ m.tasks b

/-- The tasks of a call between two turns are those of one of its branches and of the others. -/
theorem Flight.tasks_perm {branch : Branch} (hb : fl.branches[b]? = some branch) (s : Session) :
    fl.tasks.Perm (Instant.tasks b ⟨s, fl, .resting branch⟩) := by
  have hp := Flight.tasks_setBranch (List.getElem?_eq_some_iff.1 hb).1 branch
  rwa [Flight.setBranch_self hb] at hp

theorem Flight.Seeking.resting (h : fl.Seeking files s₀ name s) {branch : Branch}
    (hb : fl.branches[b]? = some branch) :
    Instant.Seeking files s₀ name b ⟨s, fl, .resting branch⟩ where
  call := h.call
  steady := h.steady.resting h.shows hb
  undropped := ⟨h.standing, trivial, h.undropped, h.undropped branch (List.mem_of_getElem? hb)⟩
  searches hm := h.searches ((Flight.tasks_perm hb s).mem_iff.2 hm)

/-- Only a call for a text comes to ask for nothing else. -/
theorem Instant.Next.fetch_notMem {m m' : Instant} (hn : m.Next files m')
    (hb : b < m.flight.branches.length) (h : .fetch ∉ m.tasks b) : .fetch ∉ m'.tasks b := by
  cases hn with
  | spread hc =>
    rw [Instant.tasks, Flight.tasks_spread hb]
    simpa [Instant.tasks, Stage.tasks, Branch.tasks] using h
  | cell ho hn =>
    rename_i s s' fl scan k old new
    obtain ⟨rest, hold, hnew⟩ := Scan.tasks_set ho new
    have hc : ∀ cell : Cell, .fetch ∉ cell.tasks := by
      intro cell
      cases cell <;> simp [Cell.tasks]
    simp only [Instant.tasks, Stage.tasks, List.mem_append, hold.mem_iff, not_or] at h
    simp only [Instant.tasks, Stage.tasks, List.mem_append, hnew.mem_iff, not_or]
    exact ⟨⟨hc new, h.1.2⟩, h.2⟩
  | scan hl => simpa [Instant.tasks, Stage.tasks, Branch.tasks, Cell.tasks, Flight.tasks] using h
  | _ =>
    simp_all [Instant.tasks, Stage.tasks, Branch.tasks, Flight.tasks, Flight.finish,
      Flight.setBranch]

namespace Instant.Seeking
variable {m m' : Instant}

theorem next (h : m.Seeking files s₀ name b) (hn : m.Next files m') :
    m'.Seeking files s₀ name b where
  call := hn.call_eq.trans h.call
  steady := h.steady.next hn
  undropped := h.undropped.next (undropped_kept files) hn
  searches := hn.fetch_notMem h.steady.branch h.searches

theorem endsIn (h : m.Seeking files s₀ name b) {x : Session × Flight} (hx : m.EndsIn files b x) :
    x.2.Seeking files s₀ name x.1 := by
  obtain ⟨hs, hf⟩ := h.steady.endsIn hx
  obtain ⟨hd, -, hu⟩ := h.undropped.endsIn (undropped_kept files) hx
  obtain ⟨fl, branch, hm, he⟩ := hx.keeps (P := fun m => m.Seeking files s₀ name b)
    (fun hn h => h.next hn) h
  refine ⟨hx.call_eq.trans h.call, hs, hf, hd, hu, fun ht => hm.searches ?_⟩
  rw [he] at ht
  exact (Flight.tasks_setBranch hm.steady.branch branch).mem_iff.1 ht

theorem nodup (h : m.Seeking files s₀ name b) : m.flight.visited.Nodup :=
  (h.steady.seeks name h.call).nodup

theorem candidates (h : m.Seeking files s₀ name b) : m.session.candidates = s₀.candidates :=
  h.steady.faithful.session.candidates

theorem begin (files : Files) (s : Session) (name : String) :
    Instant.Seeking files s name 0 ⟨s, { call := .ancestors name }, .exploring name⟩ where
  call := rfl
  steady := Instant.steady_begin (.refl files s) (.ancestors name)
  undropped := Invariant.holds_begin trivial (.ancestors name)
  searches := by
    change Task.fetch ∉ [.explore name]
    simp

end Instant.Seeking

/-- What is said of the session, the files visited and the tasks, in whatever order they are listed,
holds at the end of a search if it does at the beginning and each instant carries it on. -/
theorem Session.Yields.keeps_tasks {P : Session → List String → List Task → Prop} {slots : Nat}
    {records : List Record} (h : s.Yields files slots (.ancestors name) (.records records) t)
    (perm : ∀ {s visited tasks tasks'}, tasks.Perm tasks' → P s visited tasks →
      P s visited tasks')
    (next : ∀ {b} {m m' : Instant}, m.Seeking files s name b → m.Next files m' →
      P m.session m.flight.visited (m.tasks b) → P m'.session m'.flight.visited (m'.tasks b))
    (start : P s [] [.explore name]) :
    ∃ visited, P t visited [] ∧ s.Underway files name visited records [] [] [] ∧
      s.Shows files t ∧ t.standing = s.standing := by
  -- The statement and what the search satisfies anyway, at an instant and between two turns.
  let R : Nat → Instant → Prop := fun b m =>
    m.Seeking files s name b ∧ P m.session m.flight.visited (m.tasks b)
  let Q : Session → Flight → Prop := fun s' fl =>
    fl.Seeking files s name s' ∧ P s' fl.visited fl.tasks
  have hstop : ∀ {b} {m : Instant} {x}, R b m → m.EndsIn files b x → Q x.1 x.2 := by
    intro b m x hp hx
    have hs := hp.1.endsIn hx
    obtain ⟨fl, branch, ⟨hm, hi⟩, he⟩ :=
      hx.keeps (P := R b) (fun hn hp => ⟨hp.1.next hn, next hp.1 hn hp.2⟩) hp
    refine ⟨hs, ?_⟩
    rw [he]
    exact perm (Flight.tasks_setBranch hm.steady.branch branch).symm hi
  have hbegin : Q (s.beginCall (.ancestors name)).1 (s.beginCall (.ancestors name)).2 := by
    rcases s.beginCall_endsIn files (.ancestors name) with hx | ⟨path, hc, -⟩
    · exact hstop ⟨.begin files s name, start⟩ hx
    · cases hc
  obtain ⟨fl, ⟨hf, hi⟩, ha⟩ := h.keeps hbegin fun {s' fl b branch x} hb hx hq => by
    exact hstop ⟨hq.1.resting hb, perm (Flight.tasks_perm hb s') hq.2⟩ hx
  obtain ⟨hfin, rfl⟩ := Flight.finished_of_answer hf.call ha
  have ht : fl.tasks = [] := flatMap_of_finished hfin rfl
  exact ⟨fl.visited, ht ▸ hi, hf.steady.underway hf.call hfin, hf.shows, hf.standing⟩

/-- At its end a search owes nothing. -/
theorem Session.Yields.pays {slots : Nat} {records : List Record}
    (h : s.Yields files slots (.ancestors name) (.records records) t) : s.Pays [] t [] := by
  let Q : Session → Flight → Prop := fun s' fl =>
    fl.call = .ancestors name ∧ s.Pays [] s' fl.debts
  have hbegin : Q (s.beginCall (.ancestors name)).1 (s.beginCall (.ancestors name)).2 :=
    ⟨s.call_beginCall _, s.pays_beginCall _⟩
  obtain ⟨fl, ⟨hc, hp⟩, ha⟩ := h.keeps hbegin fun {s' fl b branch x} hb hx hq => by
    have hlt : b < fl.branches.length := (List.getElem?_eq_some_iff.1 hb).1
    have hd := Flight.debts_setBranch hlt branch
    rw [Flight.setBranch_self hb] at hd
    exact ⟨hx.call_eq.trans hq.1, (hq.2.perm (.refl _) hd).trans (hx.pays hlt)⟩
  have hd : fl.debts = [] := flatMap_of_finished (Flight.finished_of_answer hc ha).1 rfl
  exact hd ▸ hp

end Ancestry
