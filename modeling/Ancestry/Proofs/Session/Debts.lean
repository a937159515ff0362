import Ancestry.Session.Flight

/-!
The bookkeeping of a session. A call that has counted a miss and is not at its end owes something: a
read that still waits owes the read itself, one that holds a slot owes a text, and a look-up or a scan
owes what it may keep in the end. What a step adds to the counters pays for what it keeps and for what
it leaves owing.
-/

namespace Ancestry

namespace Table
variable {α : Type}

theorem size_erase_le (t : Table α) (key : String) : (t.erase key).size ≤ t.size :=
  List.length_filter_le _ _

theorem size_insert_le (t : Table α) (key : String) (value : α) :
    (t.insert key value).size ≤ t.size + 1 :=
  Nat.succ_le_succ (t.size_erase_le key)

theorem size_mapValues (f : α → α) (t : Table α) : (t.mapValues f).size = t.size :=
  List.length_map _

end Table

/-- Counters are compared one by one. -/
instance : LE Statistics where
  le a b := a.contentHits ≤ b.contentHits ∧ a.contentMisses ≤ b.contentMisses ∧
    a.providesHits ≤ b.providesHits ∧ a.providesMisses ≤ b.providesMisses ∧
    a.importerHits ≤ b.importerHits ∧ a.importerMisses ≤ b.importerMisses ∧
    a.fileReads ≤ b.fileReads ∧ a.failedReads ≤ b.failedReads

theorem Statistics.le_def (a b : Statistics) :
    a ≤ b ↔ a.contentHits ≤ b.contentHits ∧ a.contentMisses ≤ b.contentMisses ∧
      a.providesHits ≤ b.providesHits ∧ a.providesMisses ≤ b.providesMisses ∧
      a.importerHits ≤ b.importerHits ∧ a.importerMisses ≤ b.importerMisses ∧
      a.fileReads ≤ b.fileReads ∧ a.failedReads ≤ b.failedReads :=
  .rfl

/-- What a call in flight owes. -/
inductive Debt where
  /-- The read of a miss that waits for a slot. -/
  | waiting
  /-- The text of a read that holds a slot. -/
  | holding
  /-- The provide calls of a file. -/
  | calls
  /-- The importers of a component. -/
  | list
  deriving DecidableEq

theorem Debt.count_cons (a b : Debt) (debts : List Debt) :
    (b :: debts).count a = debts.count a + if b = a then 1 else 0 := by
  simp only [List.count_cons, beq_iff_eq]

/-- The counters of a session cover what it keeps and what is owed. -/
structure Session.Balanced (s : Session) (debts : List Debt) : Prop where
  waits : s.statistics.contentMisses = s.statistics.fileReads + debts.count .waiting
  fails : s.statistics.failedReads + debts.count .holding ≤ s.statistics.fileReads
  texts : (s.contents.texts.size + debts.count .holding : Int) ≤ s.statistics.fileReads
  calls : (s.contents.calls.size + debts.count .calls : Int) ≤ s.statistics.providesMisses
  lists : (s.importers.lists.size + debts.count .list : Int) ≤ s.statistics.importerMisses

/-- On the way from `s` to `t` the debts `d` become `e`, and the counters grow by what this costs. -/
structure Session.Pays (s : Session) (d : List Debt) (t : Session) (e : List Debt) : Prop where
  counters : s.statistics ≤ t.statistics
  waits : t.statistics.contentMisses - t.statistics.fileReads - e.count .waiting =
    s.statistics.contentMisses - s.statistics.fileReads - d.count .waiting
  fails : (t.statistics.failedReads + e.count .holding : Int) -
      (s.statistics.failedReads + d.count .holding) ≤
    t.statistics.fileReads - s.statistics.fileReads
  holds : (e.count .holding - d.count .holding : Int) ≤
    t.statistics.fileReads - s.statistics.fileReads
  texts : (t.contents.texts.size + e.count .holding : Int) -
      (s.contents.texts.size + d.count .holding) ≤
    t.statistics.fileReads - s.statistics.fileReads
  calls : (t.contents.calls.size + e.count .calls : Int) -
      (s.contents.calls.size + d.count .calls) ≤
    t.statistics.providesMisses - s.statistics.providesMisses
  lists : (t.importers.lists.size + e.count .list : Int) -
      (s.importers.lists.size + d.count .list) ≤
    t.statistics.importerMisses - s.statistics.importerMisses

namespace Session
variable {s t u : Session} {d e f : List Debt}

theorem Pays.trans (h : s.Pays d t e) (h' : t.Pays e u f) : s.Pays d u f := by
  obtain ⟨hc, _, _, _, _, _, _⟩ := h
  obtain ⟨hc', _, _, _, _, _, _⟩ := h'
  rw [Statistics.le_def] at hc hc'
  refine ⟨(Statistics.le_def _ _).2 ?_, ?_, ?_, ?_, ?_, ?_, ?_⟩ <;> omega

/-- What others owe stands by. -/
theorem Pays.frame (h : s.Pays d t e) (rest : List Debt) : s.Pays (d ++ rest) t (e ++ rest) := by
  obtain ⟨hc, _, _, _, _, _, _⟩ := h
  refine ⟨hc, ?_, ?_, ?_, ?_, ?_, ?_⟩ <;> simp only [List.count_append] <;> omega

theorem Pays.perm {d' e' : List Debt} (h : s.Pays d t e) (hd : d.Perm d') (he : e.Perm e') :
    s.Pays d' t e' := by
  obtain ⟨hc, h₁, h₂, h₃, h₄, h₅, h₆⟩ := h
  simp only [hd.count_eq, he.count_eq] at h₁ h₂ h₃ h₄ h₅ h₆
  exact ⟨hc, h₁, h₂, h₃, h₄, h₅, h₆⟩

theorem Balanced.pay (h : s.Balanced d) (hp : s.Pays d t e) : t.Balanced e := by
  obtain ⟨_, _, _, _, _⟩ := h
  obtain ⟨_, _, _, _, _, _, _⟩ := hp
  constructor <;> omega

theorem Pays.refl (s : Session) (d : List Debt) : s.Pays d s d := by
  refine ⟨(Statistics.le_def _ _).2 ?_, ?_, ?_, ?_, ?_, ?_, ?_⟩ <;> omega

theorem pays_textHit (s : Session) (d : List Debt) :
    s.Pays d { s with contents := s.contents.countTextHit } d := by
  constructor <;>
    simp only [statistics, Statistics.merge, Statistics.le_def, Contents.countTextHit] <;> omega

theorem pays_callsHit (s : Session) (d : List Debt) :
    s.Pays d { s with contents := s.contents.countCallsHit } d := by
  constructor <;>
    simp only [statistics, Statistics.merge, Statistics.le_def, Contents.countCallsHit] <;> omega

theorem pays_listHit (s : Session) (d : List Debt) :
    s.Pays d { s with importers := s.importers.countHit } d := by
  constructor <;>
    simp only [statistics, Statistics.merge, Statistics.le_def, Importers.countHit] <;> omega

theorem pays_request (path : String) (s : Session) (d : List Debt) :
    s.Pays d { s with contents := (s.contents.request path).2 } (.waiting :: d) := by
  constructor <;>
    simp only [statistics, Statistics.merge, Statistics.le_def, Contents.request, Debt.count_cons,
      reduceCtorEq, if_true, if_false] <;> omega

theorem pays_countRead (s : Session) (d : List Debt) :
    s.Pays (.waiting :: d) { s with contents := s.contents.countRead } (.holding :: d) := by
  constructor <;>
    simp only [statistics, Statistics.merge, Statistics.le_def, Contents.countRead,
      Debt.count_cons, reduceCtorEq, if_true, if_false] <;> omega

/-- A read that ends pays with its slot, for a failure as for a text. -/
theorem pays_endRead (r : Read) (text? : Option String) (s : Session) (d : List Debt) :
    s.Pays (.holding :: d) (s.endRead r text?) d := by
  have hi := s.contents.texts.size_insert_le r.path (Contents.textRead text?)
  cases text? <;> unfold endRead keepRead Contents.keepText <;> split <;> constructor <;>
    simp only [statistics, Statistics.merge, Statistics.le_def, Contents.countEnd, Debt.count_cons,
      reduceCtorEq, if_true, if_false] <;> omega

theorem pays_callsMiss (s : Session) (d : List Debt) :
    s.Pays d { s with contents := s.contents.countCallsMiss } (.calls :: d) := by
  constructor <;>
    simp only [statistics, Statistics.merge, Statistics.le_def, Contents.countCallsMiss,
      Debt.count_cons, reduceCtorEq, if_true, if_false] <;> omega

theorem pays_keepCalls (path : String) (mark : Mark) (calls : List String) (s : Session)
    (d : List Debt) :
    s.Pays (.calls :: d) { s with contents := s.contents.keepCalls path mark calls } d := by
  have hi := s.contents.calls.size_insert_le path calls
  unfold Contents.keepCalls
  split <;> constructor <;>
    simp only [statistics, Statistics.merge, Statistics.le_def, Debt.count_cons, reduceCtorEq,
      if_true, if_false] <;> omega

theorem pays_listMiss (s : Session) (d : List Debt) :
    s.Pays d { s with importers := s.importers.countMiss } (.list :: d) := by
  constructor <;>
    simp only [statistics, Statistics.merge, Statistics.le_def, Importers.countMiss,
      Debt.count_cons, reduceCtorEq, if_true, if_false] <;> omega

theorem pays_settle (candidates : List String) (name : String) (epoch : Nat) (found : List String)
    (s : Session) (d : List Debt) :
    s.Pays (.list :: d)
      { s with importers := (s.importers.settle candidates name epoch found).2 } d := by
  have hi := s.importers.lists.size_insert_le name found
  unfold Importers.settle
  split <;> constructor <;>
    simp only [statistics, Statistics.merge, Statistics.le_def, Debt.count_cons, reduceCtorEq,
      if_true, if_false] <;> omega

/-! A call that is answered at once pays all that it owes. -/

section Calls
variable (d) (files : Files)

theorem pays_text (path : String) (s : Session) : s.Pays d (s.text files path).2 d := by
  cases hg : s.contents.texts.get? path with
  | some text =>
    simp only [Session.text, Contents.text, hg]
    exact pays_textHit s d
  | none =>
    simp only [Session.text, Contents.text, hg]
    have ht := (pays_request path s d).trans (pays_countRead _ d)
    exact ht.trans (pays_endRead (s.contents.request path).1 (files path) _ d)

theorem pays_provides (path : String) (s : Session) : s.Pays d (s.provides files path).2 d := by
  cases hg : s.contents.calls.get? path with
  | some calls =>
    simp only [provides, Contents.provides, hg]
    exact pays_callsHit s d
  | none =>
    simp only [provides, Contents.provides, hg]
    have ht := (pays_callsMiss s d).trans (pays_text (.calls :: d) files path _)
    exact ht.trans (pays_keepCalls path _ _ _ d)

theorem pays_importersAmong (name : String) (paths : List String) (s : Session) :
    s.Pays d { s with contents := (importersAmong files name paths s.contents).2 } d := by
  induction paths generalizing s with
  | nil => exact .refl s d
  | cons path paths ih => exact (pays_text d files path s).trans (ih _)

theorem pays_importersOf (name : String) (s : Session) :
    s.Pays d (s.importersOf files name).2 d := by
  cases hg : s.importers.lists.get? name with
  | some found =>
    simp only [importersOf, hg]
    exact pays_listHit s d
  | none =>
    simp only [importersOf, hg]
    have hs := (pays_listMiss s d).trans
      (pays_importersAmong (.list :: d) files name s.candidates _)
    exact hs.trans (pays_settle s.candidates name _ _ _ d)

theorem pays_visitAll {known visited pending : List String} {records : List Record}
    (hs : s.Within known) (hp : ∀ p ∈ pending, p ∈ known) :
    s.Pays d (visitAll files known visited records pending s hs hp).2 d := by
  obtain ⟨_, h⟩ := visitAll_keeps (motive := fun _ _ _ t => s.Pays d t d) (fun _ h => h)
    (fun _ h => (h.trans (pays_provides d files _ _)).trans (pays_importersOf d files _ _))
    hs hp (.refl s d)
  exact h

theorem pays_ancestors (name : String) (s : Session) : s.Pays d (s.ancestors files name).2 d :=
  (pays_importersOf d files name s).trans (pays_visitAll d files _ _)

theorem pays_call (call : Call) (s : Session) : s.Pays d (s.call files call).2 d := by
  cases call with
  | text path => exact pays_text d files path s
  | provides path => exact pays_provides d files path s
  | importers name => exact pays_importersOf d files name s
  | ancestors name => exact pays_ancestors d files name s
  | ancestorsOfFile path =>
    simp only [call, ancestorsOfFile]
    split
    · exact pays_ancestors d files _ s
    · exact .refl s d

end Calls

/-! Whatever drops something leaves the counters. -/

section Drops
variable (s) (d)

theorem pays_dropContents (c : Contents) (hn : c.stats = s.contents.stats)
    (ht : c.texts.size ≤ s.contents.texts.size) (hc : c.calls.size ≤ s.contents.calls.size) :
    s.Pays d { s with contents := c } d := by
  constructor <;> simp only [statistics, hn, Statistics.le_def] <;> omega

theorem pays_dropLists (g : Importers) (hn : g.stats = s.importers.stats)
    (hl : g.lists.size ≤ s.importers.lists.size) : s.Pays d { s with importers := g } d := by
  constructor <;> simp only [statistics, hn, Statistics.le_def] <;> omega

theorem pays_invalidateFile (path : String) : s.Pays d (s.invalidateFile path) d :=
  pays_dropContents s d (s.contents.invalidate path) rfl (Table.size_erase_le _ path)
    (Table.size_erase_le _ path)

theorem pays_clearContents : s.Pays d s.clearContents d :=
  pays_dropContents s d s.contents.clear rfl (Nat.zero_le _) (Nat.zero_le _)

theorem pays_invalidateComponent (name : String) : s.Pays d (s.invalidateComponent name) d :=
  pays_dropLists s d (s.importers.invalidate name) rfl (Table.size_erase_le _ name)

theorem pays_removeFromLists (path : String) : s.Pays d (s.removeFromLists path) d :=
  pays_dropLists s d (s.importers.removeFile path) rfl (Nat.le_of_eq (Table.size_mapValues _ _))

theorem pays_clearImporters : s.Pays d s.clearImporters d :=
  pays_dropLists s d s.importers.clear rfl (Nat.zero_le _)

theorem pays_setCandidates (paths : List String) : s.Pays d (s.setCandidates paths) d := by
  have h := Pays.refl s d
  exact ⟨h.counters, h.waits, h.fails, h.holds, h.texts, h.calls, h.lists⟩

theorem pays_refreshFile (path : String) : s.Pays d (s.refreshFile path) d := by
  have hf := pays_invalidateFile s d path
  simp only [refreshFile]
  split
  · exact hf.trans (pays_clearImporters _ d)
  · exact hf.trans (pays_invalidateComponent _ d _)

theorem pays_handle (kind : EventKind) (path : String) : s.Pays d (s.handle kind path) d := by
  cases kind with
  | created =>
    refine Pays.trans ?_ (pays_refreshFile _ d path)
    split
    · exact .refl s d
    · exact pays_setCandidates s d _
  | changed => exact pays_refreshFile s d path
  | deleted =>
    refine Pays.trans ?_ (pays_setCandidates _ d _)
    exact ((pays_invalidateFile s d path).trans (pays_invalidateComponent _ d _)).trans
      (pays_removeFromLists _ d path)

end Drops
end Session
end Ancestry
