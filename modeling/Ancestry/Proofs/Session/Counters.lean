import Ancestry.Proofs.Session.Concurrency
import Ancestry.Proofs.Session.Debts
import Ancestry.Proofs.Session.ScheduleIndependence

/-!
The counters of a session at every moment of a run. What the calls in flight owe can be read off their
branches, so each turn pays for itself and the books stay balanced, whatever else happens between two
turns. A slot is taken by a turn only where one is free.
-/

namespace Ancestry
variable {files : Files} {s s' : Session} {fl : Flight} {p p' : Pool} {b : Nat} {name : String}

def Read.debt (r : Read) : Debt :=
  match r.state with
  | .waiting => .waiting
  | .holding _ => .holding

def Cell.debts : Cell → List Debt
  | reading r => [r.debt]
  | _ => []

def Branch.debts : Branch → List Debt
  | reading r => [r.debt]
  | looking r => [r.debt, .calls]
  | scanning scan => .list :: scan.cells.flatMap Cell.debts
  | _ => []

def Stage.debts : Stage → List Debt
  | resting branch => branch.debts
  | _ => []

def Flight.debts (fl : Flight) : List Debt :=
  fl.branches.flatMap Branch.debts

def Pool.debts (p : Pool) : List Debt :=
  p.flights.flatMap Flight.debts

/-- What a call owes in the middle of a turn of branch `b`. -/
def Instant.debts (b : Nat) (m : Instant) : List Debt :=
  m.stage.debts ++ (m.flight.finish b).debts

theorem Read.debt_eq_waiting_iff (r : Read) : r.debt = .waiting ↔ r.state = .waiting := by
  obtain ⟨path, mark, state⟩ := r
  cases state <;> simp [Read.debt]

theorem Read.debt_eq_holding_iff (r : Read) : r.debt = .holding ↔ r.state ≠ .waiting := by
  obtain ⟨path, mark, state⟩ := r
  cases state <;> simp [Read.debt]

theorem Read.debt_of_holding {r : Read} {text? : Option String} (h : r.state = .holding text?) :
    r.debt = .holding := by
  rw [Read.debt, h]

theorem Cell.Next.pays {old new : Cell} (h : old.Next files name s s' new) (d : List Debt) :
    s.Pays (old.debts ++ d) s' (new.debts ++ d) := by
  cases h with
  | known ht => exact s.pays_textHit d
  | ask ht => exact s.pays_request _ d
  | take hr =>
    rename_i r
    rw [Cell.debts, r.debt_eq_waiting_iff.2 hr]
    exact s.pays_countRead d
  | settle hr =>
    rename_i r text?
    rw [Cell.debts, r.debt_of_holding hr]
    exact Session.pays_endRead r text? s d

/-- One element of a list is taken out. -/
theorem flatMap_perm_of_getElem? {α β : Type} (f : α → List β) {l : List α} {x y : α}
    (hx : l[b]? = some x) (hy : f y = []) : (l.flatMap f).Perm (f x ++ (l.set b y).flatMap f) := by
  obtain ⟨hb, rfl⟩ := List.getElem?_eq_some_iff.1 hx
  have h := flatMap_set_perm f hb hy l[b]
  rwa [List.set_getElem_self] at h

/-- A cell pays on its own, while its scan and the other cells owe what they owed. -/
theorem Scan.pays_cell {scan : Scan} {k : Nat} {old new : Cell} (ho : scan.cells[k]? = some old)
    (hn : old.Next files scan.name s s' new) (d : List Debt) :
    s.Pays ((Branch.scanning scan).debts ++ d) s'
      ((Branch.scanning { scan with cells := scan.cells.set k new }).debts ++ d) := by
  have hk : k < scan.cells.length := (List.getElem?_eq_some_iff.1 ho).1
  have hold := flatMap_perm_of_getElem? Cell.debts ho (y := .idle "") rfl
  have hnew := flatMap_set_perm Cell.debts hk (y := .idle "") rfl new
  have hp := hn.pays ((scan.cells.set k (.idle "")).flatMap Cell.debts ++ .list :: d)
  rw [← List.append_assoc, ← List.append_assoc] at hp
  refine hp.perm ?_ ?_
  · exact ((hold.symm.append_right _).trans List.perm_middle)
  · exact ((hnew.symm.append_right _).trans List.perm_middle)

theorem Scan.debts_of_isSettled {scan : Scan} (h : scan.isSettled) :
    scan.cells.flatMap Cell.debts = [] := by
  rw [List.flatMap_eq_nil_iff]
  intro cell hc
  have hs := List.all_eq_true.1 h cell hc
  cases cell with
  | settled path imports => rfl
  | _ => cases hs

theorem Instant.Next.pays {m m' : Instant} (h : m.Next files m') (d : List Debt) :
    m.session.Pays (m.stage.debts ++ d) m'.session (m'.stage.debts ++ d) := by
  cases h with
  | skip hv => exact .refl _ d
  | enter hv => exact .refl _ d
  | textKnown ht => exact Session.pays_textHit _ d
  | askText ht => exact Session.pays_request _ _ d
  | takeText hr =>
    rename_i s fl r
    simp only [Stage.debts, Branch.debts, r.debt_eq_waiting_iff.2 hr]
    exact s.pays_countRead d
  | endText hr =>
    rename_i s fl r text?
    simp only [Stage.debts, Branch.debts, r.debt_of_holding hr]
    exact Session.pays_endRead r text? s d
  | callsKnown hc => exact Session.pays_callsHit _ d
  | callsOfKnown hc ht =>
    rename_i s fl path text
    have hm := (s.pays_callsMiss d).trans (Session.pays_textHit _ (.calls :: d))
    exact hm.trans (Session.pays_keepCalls path _ _ _ d)
  | askCalls hc ht =>
    exact (Session.pays_callsMiss _ d).trans (Session.pays_request _ _ (.calls :: d))
  | takeCalls hr =>
    rename_i s fl r
    simp only [Stage.debts, Branch.debts, r.debt_eq_waiting_iff.2 hr]
    exact s.pays_countRead (.calls :: d)
  | endCalls hr =>
    rename_i s fl r text?
    simp only [Stage.debts, Branch.debts, r.debt_of_holding hr]
    exact (Session.pays_endRead r text? s (.calls :: d)).trans
      (Session.pays_keepCalls _ _ _ _ d)
  | tell hc => exact .refl _ d
  | report hc => exact .refl _ d
  | listKnown hl => exact Session.pays_listHit _ d
  | scan hl =>
    rename_i s fl name
    have hi : (s.candidates.map Cell.idle).flatMap Cell.debts = [] := by
      simp [List.flatMap_map, Cell.debts]
    simp only [Stage.debts, Branch.debts, hi]
    exact s.pays_listMiss d
  | cell ho hn => exact Scan.pays_cell ho hn d
  | gather hc =>
    simp only [Stage.debts, Branch.debts, Scan.debts_of_isSettled hc]
    exact Session.pays_settle _ _ _ _ _ d
  | answer hc => exact .refl _ d
  | spread hc => exact .refl _ d

theorem Instant.Next.pays_debts {m m' : Instant} (h : m.Next files m')
    (hb : b < m.flight.branches.length) :
    b < m'.flight.branches.length ∧ m.session.Pays (m.debts b) m'.session (m'.debts b) := by
  suffices ho : b < m'.flight.branches.length ∧
      (m'.flight.finish b).debts = (m.flight.finish b).debts by
    rw [Instant.debts, Instant.debts, ho.2]
    exact ⟨ho.1, h.pays _⟩
  cases h with
  | spread hc =>
    rename_i s fl found
    refine ⟨?_, ?_⟩
    · rw [List.length_append]
      exact Nat.lt_add_right _ hb
    · have hd : (found.map Branch.visiting).flatMap Branch.debts = [] := by
        simp [List.flatMap_map, Branch.debts]
      simp only [Flight.debts, Flight.finish_spread hb, List.flatMap_append, hd, List.append_nil]
  | _ => exact ⟨hb, rfl⟩

theorem Flight.debts_setBranch (hb : b < fl.branches.length) (branch : Branch) :
    (fl.setBranch b branch).debts.Perm (branch.debts ++ (fl.finish b).debts) :=
  flatMap_set_perm Branch.debts hb rfl branch

theorem Instant.EndsIn.pays {m : Instant} {x : Session × Flight} (hx : m.EndsIn files b x)
    (hb : b < m.flight.branches.length) : m.session.Pays (m.debts b) x.1 x.2.debts := by
  let P : Instant → Prop := fun m' =>
    b < m'.flight.branches.length ∧ m.session.Pays (m.debts b) m'.session (m'.debts b)
  have hP : ∀ {m₁ m₂}, Instant.Next files m₁ m₂ → P m₁ → P m₂ := by
    rintro m₁ m₂ hn ⟨hb, hp⟩
    obtain ⟨hb', hp'⟩ := hn.pays_debts hb
    exact ⟨hb', hp.trans hp'⟩
  obtain ⟨fl, branch, ⟨hb, hp⟩, he⟩ := hx.keeps hP ⟨hb, .refl _ _⟩
  rw [he]
  exact hp.perm (.refl _) (Flight.debts_setBranch hb branch).symm

theorem Session.pays_beginCall (s : Session) (call : Call) :
    s.Pays [] (s.beginCall call).1 (s.beginCall call).2.debts := by
  rcases s.beginCall_endsIn (fun _ => none) call with hx | ⟨path, -, hx⟩
  · have hd : Instant.debts 0 ⟨s, { call }, call.stage⟩ = [] := by cases call <;> rfl
    have hp := hx.pays Nat.zero_lt_one
    rwa [hd] at hp
  · rw [hx]
    exact .refl s []

theorem Pool.pays_begin (p : Pool) (call : Call) :
    p.session.Pays p.debts (p.begin call).session (p.begin call).debts := by
  have hp := (p.session.pays_beginCall call).frame p.debts
  have hd : (p.begin call).debts = p.debts ++ (p.session.beginCall call).2.debts := by
    have hs : (p.begin call).debts =
        (p.flights ++ [(p.session.beginCall call).2]).flatMap Flight.debts := rfl
    rw [hs, List.flatMap_append, List.flatMap_singleton, Pool.debts]
  rw [hd]
  exact hp.perm (.refl _) List.perm_append_comm

theorem Pool.pays_turn? {turn : Turn} {place : Place} (ht : p.turn? files turn place = some p') :
    p.session.Pays p.debts p'.session p'.debts := by
  obtain ⟨fl, branch, next, hf, hbr, hx, rfl⟩ := Pool.turn?_endsIn ht
  have hb : place.branch < fl.branches.length := (List.getElem?_eq_some_iff.1 hbr).1
  have hi : place.flight < p.flights.length := (List.getElem?_eq_some_iff.1 hf).1
  -- A call that has not begun owes nothing and stands in for the one that moves.
  have hy : Flight.debts { call := .text "" } = [] := rfl
  have hold := flatMap_perm_of_getElem? Flight.debts hf hy
  have hnew := flatMap_set_perm Flight.debts hi hy next.2
  have hm : (Instant.debts place.branch ⟨p.session, fl, .resting branch⟩).Perm fl.debts := by
    have h := Flight.debts_setBranch hb branch
    rw [Flight.setBranch_self hbr] at h
    exact h.symm
  have hp := ((hx.pays hb).perm hm (.refl _)).frame
    ((p.flights.set place.flight { call := .text "" }).flatMap Flight.debts)
  exact hp.perm hold.symm hnew.symm

/-! Only a read that takes a slot is counted, and it takes one that is free. -/

namespace Session

theorem fileReads_settle (candidates : List String) (name : String) (epoch : Nat)
    (found : List String) (s : Session) :
    { s with importers := (s.importers.settle candidates name epoch found).2 }.statistics.fileReads =
      s.statistics.fileReads := by
  unfold Importers.settle
  split <;> rfl

theorem fileReads_keepRead (r : Read) (text : String) (s : Session) :
    (s.keepRead r text).statistics.fileReads = s.statistics.fileReads := by
  unfold keepRead Contents.keepText
  split <;> rfl

theorem fileReads_endRead (r : Read) (text? : Option String) (s : Session) :
    (s.endRead r text?).statistics.fileReads = s.statistics.fileReads := by
  unfold endRead
  rw [fileReads_keepRead]
  cases text? <;> rfl

theorem fileReads_keepCalls (path : String) (mark : Mark) (calls : List String) (s : Session) :
    { s with contents := s.contents.keepCalls path mark calls }.statistics.fileReads =
      s.statistics.fileReads := by
  unfold Contents.keepCalls
  split <;> rfl

theorem fileReads_explore (b : Nat) (name : String) (s : Session) (fl : Flight) :
    (s.explore b name fl).1.statistics.fileReads = s.statistics.fileReads := by
  unfold explore
  split
  · rfl
  · simp only
    split
    · exact fileReads_settle _ _ _ _ { s with importers := s.importers.countMiss }
    · rfl

theorem fileReads_withCalls (b : Nat) (path : String) (calls : List String) (s : Session)
    (fl : Flight) :
    (s.withCalls b path calls fl).1.statistics.fileReads = s.statistics.fileReads := by
  unfold withCalls
  split
  · rfl
  · exact fileReads_explore ..

theorem fileReads_lookUp (b : Nat) (path : String) (s : Session) (fl : Flight) :
    (s.lookUp b path fl).1.statistics.fileReads = s.statistics.fileReads := by
  unfold lookUp
  split
  · exact fileReads_withCalls ..
  · simp only
    split
    · rw [fileReads_withCalls]
      exact fileReads_keepCalls _ _ _
        { s with contents := s.contents.countCallsMiss.countTextHit }
    · rfl

theorem fileReads_visit (b : Nat) (path : String) (s : Session) (fl : Flight) :
    (s.visit b path fl).1.statistics.fileReads = s.statistics.fileReads := by
  unfold visit
  split
  · rfl
  · exact fileReads_lookUp ..

theorem fileReads_openCell (name path : String) (s : Session) :
    (s.openCell name path).1.statistics.fileReads = s.statistics.fileReads := by
  unfold openCell
  split <;> rfl

theorem fileReads_endLookUp (b : Nat) (r : Read) (text? : Option String) (s : Session)
    (fl : Flight) : (s.endLookUp b r text? fl).1.statistics.fileReads = s.statistics.fileReads := by
  unfold endLookUp
  rw [fileReads_withCalls, fileReads_keepCalls, fileReads_endRead]

theorem fileReads_beginCall (call : Call) (s : Session) :
    (s.beginCall call).1.statistics.fileReads = s.statistics.fileReads := by
  unfold beginCall
  cases call with
  | text path =>
    simp only
    split <;> rfl
  | provides path => exact fileReads_lookUp ..
  | importers name => exact fileReads_explore ..
  | ancestors name => exact fileReads_explore ..
  | ancestorsOfFile path =>
    simp only
    split
    · exact fileReads_explore ..
    · rfl

theorem fileReads_takeText (files : Files) (r : Read) (s : Session) :
    (s.takeText files r).1.statistics.fileReads = s.statistics.fileReads + 1 := by
  simp only [takeText, Contents.countRead, statistics, Statistics.merge]
  omega

end Session

theorem Pool.fileReads_turn? {turn : Turn} {place : Place} (ht : p.turn? files turn place = some p') :
    p'.session.statistics.fileReads = p.session.statistics.fileReads ∨
      p.holders < p.slots ∧
        p'.session.statistics.fileReads = p.session.statistics.fileReads + 1 := by
  simp only [Pool.turn?, bind, Option.bind_eq_some_iff] at ht
  obtain ⟨fl, -, branch, -, ht⟩ := ht
  split at ht
  · -- A file is visited.
    cases ht
    exact .inl (Session.fileReads_visit ..)
  · -- A cell begins.
    split at ht
    · cases ht
      exact .inl (Session.fileReads_openCell ..)
    · cases ht
  · -- A read takes its text, in one of three places; the slot is asked for here.
    split at ht
    · rename_i r _ hr
      cases ht
      exact .inr ⟨hr.2, Session.fileReads_takeText files r p.session⟩
    · cases ht
  · split at ht
    · rename_i r _ hr
      cases ht
      exact .inr ⟨hr.2, Session.fileReads_takeText files r p.session⟩
    · cases ht
  · split at ht
    · split at ht
      · rename_i r _ hr
        cases ht
        exact .inr ⟨hr.2, Session.fileReads_takeText files r p.session⟩
      · cases ht
    · cases ht
  · -- A read ends, in the same places.
    split at ht
    · cases ht
      exact .inl (Session.fileReads_endRead ..)
    · cases ht
  · split at ht
    · cases ht
      exact .inl (Session.fileReads_endLookUp ..)
    · cases ht
  · split at ht
    · split at ht
      · cases ht
        exact .inl (Session.fileReads_endRead ..)
      · cases ht
    · cases ht
  · -- A scan ends.
    split at ht
    · cases ht
      exact .inl (Session.fileReads_settle ..)
    · cases ht
  · cases ht

/-! What is owed as a read can be told from the reads themselves. -/

theorem Branch.count_debts (branch : Branch) {d : Debt} (hd : d = .waiting ∨ d = .holding) :
    branch.debts.count d = branch.reads.countP (·.debt = d) := by
  cases branch with
  | visiting path => rfl
  | finished => rfl
  | reading r => simp [Branch.debts, Branch.reads, List.count_cons, List.countP_cons]
  | looking r =>
    have hc : Debt.calls ≠ d := by rcases hd with rfl | rfl <;> decide
    simp [Branch.debts, Branch.reads, List.count_cons, List.countP_cons, hc]
  | scanning scan =>
    have hl : Debt.list ≠ d := by rcases hd with rfl | rfl <;> decide
    rw [Branch.debts, List.count_cons_of_ne hl, Branch.reads]
    induction scan.cells with
    | nil => rfl
    | cons cell cells ih =>
      cases cell <;> simp [Cell.debts, List.countP_cons, List.count_cons, ih]

theorem Pool.count_debts (p : Pool) {d : Debt} (hd : d = .waiting ∨ d = .holding) :
    p.debts.count d = p.reads.countP (·.debt = d) := by
  simp only [Pool.debts, Pool.reads, Flight.debts, List.count_flatMap, List.countP_flatMap,
    Function.comp_def, Branch.count_debts _ hd]

theorem Pool.count_waiting (p : Pool) :
    p.debts.count .waiting = p.reads.countP (·.state = .waiting) := by
  rw [p.count_debts (.inl rfl)]
  refine List.countP_congr fun r _ => ?_
  simpa using r.debt_eq_waiting_iff

theorem Pool.count_holding (p : Pool) : p.debts.count .holding = p.holders := by
  rw [p.count_debts (.inr rfl), Pool.holders]
  refine List.countP_congr fun r _ => ?_
  simpa using r.debt_eq_holding_iff

/-- What may happen to a session: what may happen in a run, and whatever else drops lists of importers
or chooses the candidates. -/
inductive Move where
  | act (act : Act)
  | invalidateComponent (name : String)
  | removeFromLists (path : String)
  | clearImporters
  | setCandidates (paths : List String)

namespace World

def move (w : World) : Move → World
  | .act act => w.step act
  | .invalidateComponent name => w.withSession (w.pool.session.invalidateComponent name)
  | .removeFromLists path => w.withSession (w.pool.session.removeFromLists path)
  | .clearImporters => w.withSession w.pool.session.clearImporters
  | .setCandidates paths => w.withSession (w.pool.session.setCandidates paths)

def moves (w : World) (ms : List Move) : World :=
  ms.foldl move w

theorem pays_step (w : World) (a : Act) :
    w.pool.session.Pays w.pool.debts (w.step a).pool.session (w.step a).pool.debts := by
  cases a with
  | put path text? => exact .refl _ _
  | begin call => exact w.pool.pays_begin call
  | turn turn place =>
    cases ht : w.pool.turn? w.files turn place with
    | none =>
      simp only [step, ht, Option.getD_none]
      exact .refl _ _
    | some p' =>
      simp only [step, ht, Option.getD_some]
      exact Pool.pays_turn? ht
  | ask call => exact Session.pays_call _ w.files call _
  | event kind path => exact Session.pays_handle _ _ kind path
  | clear => exact (Session.pays_clearContents _ _).trans (Session.pays_clearImporters _ _)
  | invalidate path => exact Session.pays_invalidateFile _ _ path
  | clearContents => exact Session.pays_clearContents _ _

theorem pays_move (w : World) (m : Move) :
    w.pool.session.Pays w.pool.debts (w.move m).pool.session (w.move m).pool.debts := by
  cases m with
  | act act => exact w.pays_step act
  | invalidateComponent name => exact Session.pays_invalidateComponent _ _ name
  | removeFromLists path => exact Session.pays_removeFromLists _ _ path
  | clearImporters => exact Session.pays_clearImporters _ _
  | setCandidates paths => exact Session.pays_setCandidates _ _ paths

end World

/-- More reads hold a slot only where one was free and a read was counted. -/
theorem Pool.holders_le_slots (h : p.holders ≤ p.slots)
    (hp : p.session.Pays p.debts p'.session p'.debts)
    (hr : p'.session.statistics.fileReads = p.session.statistics.fileReads ∨
      p.holders < p.slots ∧
        p'.session.statistics.fileReads = p.session.statistics.fileReads + 1) :
    p'.holders ≤ p.slots := by
  have hh := hp.holds
  rw [p.count_holding, p'.count_holding] at hh
  omega

namespace World

theorem holders_step {w : World} (h : w.pool.holders ≤ w.pool.slots) (a : Act) :
    (w.step a).pool.holders ≤ w.pool.slots := by
  have hp := w.pays_step a
  cases a with
  | begin call => exact Pool.holders_le_slots h hp (.inl (Session.fileReads_beginCall ..))
  | turn turn place =>
    refine Pool.holders_le_slots h hp ?_
    cases ht : w.pool.turn? w.files turn place with
    | none => exact .inl (by simp only [step, ht, Option.getD_none])
    | some p' => simpa only [step, ht, Option.getD_some] using Pool.fileReads_turn? ht
  | _ => exact h

theorem slots_move (w : World) (m : Move) : (w.move m).pool.slots = w.pool.slots := by
  cases m with
  | act act => exact w.slots_step act
  | _ => rfl

/-- The books of a run are balanced and no more slots are taken than there are. -/
structure Sound (w : World) : Prop where
  balanced : w.pool.session.Balanced w.pool.debts
  holders : w.pool.holders ≤ w.pool.slots

theorem Sound.move {w : World} (h : w.Sound) (m : Move) : (w.move m).Sound := by
  refine ⟨h.balanced.pay (w.pays_move m), ?_⟩
  rw [slots_move]
  cases m with
  | act act => exact holders_step h.holders act
  | _ => exact h.holders

theorem Sound.moves {w : World} (h : w.Sound) (ms : List Move) :
    (w.moves ms).Sound ∧ (w.moves ms).pool.slots = w.pool.slots := by
  induction ms generalizing w with
  | nil => exact ⟨h, rfl⟩
  | cons m ms ih =>
    obtain ⟨hs, hn⟩ := ih (h.move m)
    exact ⟨hs, hn.trans (w.slots_move m)⟩

theorem sound_start (strict : Bool) (extension : String) (candidates : List String) (slots : Nat)
    (files : Files) : (start strict extension candidates slots files).Sound :=
  ⟨⟨rfl, Int.le_refl 0, Int.le_refl 0, Int.le_refl 0, Int.le_refl 0⟩, Nat.zero_le _⟩

end World

/-- At every moment of every run the misses of texts are the reads that were begun and those that wait
for a slot, as many reads hold a slot as there are slots or fewer, and neither failures nor anything
that is kept outnumber what was counted for them. Nothing that happens next lowers a counter. -/
theorem counters_account (strict : Bool) (extension : String) (candidates : List String)
    (slots : Nat) (files : Files) (ms : List Move) :
    let w := (World.start strict extension candidates slots files).moves ms
    let s := w.pool.session
    s.statistics.contentMisses =
        s.statistics.fileReads + w.pool.reads.countP (·.state = .waiting) ∧
      w.pool.holders ≤ slots ∧
      s.statistics.failedReads ≤ s.statistics.fileReads ∧
      (s.contents.texts.size : Int) ≤ s.statistics.fileReads ∧
      (s.contents.calls.size : Int) ≤ s.statistics.providesMisses ∧
      (s.importers.lists.size : Int) ≤ s.statistics.importerMisses ∧
      ∀ m, s.statistics ≤ (w.move m).pool.session.statistics := by
  intro w s
  have h : w.Sound ∧ w.pool.slots = slots :=
    (World.sound_start strict extension candidates slots files).moves ms
  obtain ⟨hw, hf, ht, hc, hl⟩ : s.Balanced w.pool.debts := h.1.balanced
  have hh := h.1.holders
  rw [h.2] at hh
  rw [w.pool.count_waiting] at hw
  refine ⟨hw, hh, ?_, ?_, ?_, ?_, fun m => (w.pays_move m).counters⟩
  · omega
  · omega
  · omega
  · omega

-- With one slot the second of two reads goes on waiting. The first has not failed yet.
example :
    let w := (World.start false ".vue" [] 1 fun _ => none).moves
      [.act (.begin (.text "/A.vue")), .act (.begin (.text "/B.vue")),
        .act (.turn .take ⟨0, 0, none⟩), .act (.turn .take ⟨1, 0, none⟩)]
    w.pool.session.statistics = { contentMisses := 2, fileReads := 1 } ∧
      w.pool.reads.countP (·.state = .waiting) = 1 ∧ w.pool.holders = 1 := by
  decide +kernel

end Ancestry
