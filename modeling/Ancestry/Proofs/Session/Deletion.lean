import Ancestry.Proofs.Session.Events
import Ancestry.Proofs.Session.Reachability
import Ancestry.Proofs.Session.StrictImporters

/-!
A deleted file does not come back. No candidate stands twice, so a deletion takes the file out of the
candidates, and the lists hold candidates only. A scan that began before the deletion may still find
the file; but then it is overtaken, and what it hands on is cleaned of files that are gone.
-/

namespace Ancestry
/-- No candidate stands twice, and the lists hold candidates only. -/
structure Session.Tidy (s : Session) : Prop where
  nodup : s.candidates.Nodup
  lists : ∀ {name found}, s.importers.lists.get? name = some found →
    ∀ p ∈ found, p ∈ s.candidates

/-- Sessions are tidy, and a scan that was not overtaken looks through the candidates. -/
def tidiness : Invariant where
  session := Session.Tidy
  read _ _ := True
  scan d epoch paths := epoch ≤ d.listEpoch ∧ (epoch = d.listEpoch → paths = d.candidates)
  cell _ _ _ _ := True

namespace Session.Tidy
variable {s : Session}

theorem mem_settle {scan : Scan}
    (hs : tidiness.scan s.standing scan.epoch (scan.cells.map Cell.path)) :
    ∀ p ∈ (s.importers.settle s.candidates scan.name scan.epoch
      (scan.cells.filterMap Cell.importer?)).1, p ∈ s.candidates := by
  intro p hp
  unfold Importers.settle at hp
  split at hp
  · rename_i he
    have hc : scan.cells.map Cell.path = s.candidates := hs.2 he.symm
    rw [← hc]
    exact (importers_sublist scan.cells).subset hp
  · simpa using (List.mem_filter.1 hp).2

theorem settle (h : s.Tidy) {scan : Scan}
    (hs : tidiness.scan s.standing scan.epoch (scan.cells.map Cell.path)) :
    ({ s with
      importers := (s.importers.settle s.candidates scan.name scan.epoch
        (scan.cells.filterMap Cell.importer?)).2 } : Session).Tidy := by
  have hm := mem_settle hs
  unfold Importers.settle at hm ⊢
  split
  · rename_i he
    rw [if_pos he] at hm
    refine ⟨h.nodup, fun {name found} hl => ?_⟩
    simp only [Table.get?_insert] at hl
    split at hl
    · cases hl
      exact hm
    · exact h.lists hl
  · exact h

theorem handle (h : s.Tidy) (kind : EventKind) (path : String) : (s.handle kind path).Tidy := by
  constructor
  · refine List.nodup_iff_count_le_one.2 fun p => ?_
    have hc := List.nodup_iff_count_le_one.1 h.nodup p
    rw [count_handle]
    split
    · cases kind <;> simp only [EventKind.count] <;> omega
    · exact hc
  · intro name found hl p hp
    rw [handle_eq] at hl
    obtain ⟨kept, hk, hm⟩ := Importers.mem_of_mem_handle hl
    obtain ⟨hpk, hne⟩ := hm p hp
    have hc := List.count_pos_iff.2 (h.lists hk p hpk)
    rw [← List.count_pos_iff, count_handle]
    split
    · rename_i hpath
      cases kind with
      | created => simp only [EventKind.count]; omega
      | changed => exact hc
      | deleted => exact absurd hpath (hne rfl)
    · exact hc

theorem mem_shownImporters (h : s.Tidy) {files : Files} {name p : String}
    (hp : p ∈ s.shownImporters files name) : p ∈ s.candidates := by
  unfold shownImporters at hp
  cases hl : s.importers.lists.get? name with
  | some found =>
    rw [hl, Option.getD_some] at hp
    exact h.lists hl p hp
  | none =>
    rw [hl, Option.getD_none] at hp
    exact (List.mem_filter.1 hp).1

/-- A search comes to candidates only. -/
theorem mem_of_reachable (h : s.Tidy) {files : Files} {name p : String}
    (hp : Reachable files s name p) : p ∈ s.candidates := by
  cases hp with
  | importer hi => exact h.mem_shownImporters hi
  | above _ hq => exact h.mem_shownImporters hq

end Session.Tidy

theorem tidiness_kept (files : Files) : tidiness.Kept files where
  count _ _ h := ⟨h.nodup, h.lists⟩
  request _ _ := trivial
  take _ := trivial
  keepText h _ _ := ⟨h.nodup, h.lists⟩
  keepCalls h _ := ⟨h.nodup, h.lists⟩
  keepBoth h _ _ := ⟨h.nodup, h.lists⟩
  openScan _ := ⟨Nat.le_refl _, fun _ => rfl⟩
  idleCell _ _ _ _ := trivial
  hitCell _ _ _ _ _ _ := trivial
  requestCell _ _ _ _ := trivial
  takeCell _ := trivial
  readCell _ := trivial
  settleCell _ _ := trivial
  settle _ h hs _ _ := h.settle hs

/-- The epoch of the lists has ended, and all scans are overtaken. -/
theorem tidiness_overtaken {p : Pool} {s : Session} (h : tidiness.pool p) (hs : s.Tidy)
    (he : p.session.importers.epoch < s.importers.epoch) :
    tidiness.pool { p with session := s } := by
  refine Invariant.pool_of_parts h hs (fun _ _ => trivial) ?_ (fun _ _ _ _ _ _ => trivial)
  intro epoch paths hn
  have hlt : epoch < s.standing.listEpoch := Nat.lt_of_le_of_lt hn.1 he
  exact ⟨Nat.le_of_lt hlt, fun heq => absurd heq (Nat.ne_of_lt hlt)⟩

theorem tidiness_step {w : World} (h : tidiness.pool w.pool) (a : Act) :
    tidiness.pool (w.step a).pool := by
  have hcall : a.isCall → tidiness.pool (w.step a).pool :=
    fun ha => (Invariant.pool_step (tidiness_kept w.files) h ha).1
  have hcontents : ∀ c : Contents,
      tidiness.pool { w.pool with session := { w.pool.session with contents := c } } :=
    fun c => Invariant.pool_of_parts h ⟨h.1.nodup, h.1.lists⟩ (fun _ _ => trivial)
      (fun _ _ hn => hn) (fun _ _ _ _ _ _ => trivial)
  cases a with
  | begin call => exact hcall rfl
  | turn turn place => exact hcall rfl
  | ask call => exact hcall rfl
  | put path text? => exact h
  | event kind path =>
    have hd := Session.drops_handle kind path w.pool.session
    exact tidiness_overtaken h (h.1.handle kind path) hd.epoch
  | clear =>
    have hs : w.pool.session.clear.Tidy :=
      ⟨h.1.nodup, fun hl => by simp [Session.clear, Session.clearImporters, Importers.clear] at hl⟩
    exact tidiness_overtaken h hs (Nat.lt_succ_self _)
  | invalidate path => exact hcontents _
  | clearContents => exact hcontents _

theorem tidiness_run (w : World) (h : tidiness.pool w.pool) (acts : List Act) :
    tidiness.pool (w.run acts).pool := by
  induction acts generalizing w with
  | nil => exact h
  | cons a acts ih => exact ih (w.step a) (tidiness_step h a)

theorem tidiness_start (strict : Bool) (extension : String) {candidates : List String}
    (hn : candidates.Nodup) (slots : Nat) (files : Files) :
    tidiness.pool (World.start strict extension candidates slots files).pool :=
  Invariant.pool_start ⟨hn, fun hl => by simp [Session.new, Importers.empty] at hl⟩

/-- Only its creation makes a file a candidate. -/
theorem World.mem_candidates_step {w : World} {a : Act} {p : String}
    (hp : p ∈ (w.step a).pool.session.candidates) :
    p ∈ w.pool.session.candidates ∨ a = .event .created p := by
  have hcall : a.isCall → p ∈ w.pool.session.candidates := by
    intro ha
    have hs : (w.step a).pool.session.candidates = w.pool.session.candidates :=
      congrArg Standing.candidates (Invariant.standing_step ha)
    exact hs ▸ hp
  cases a with
  | begin call => exact .inl (hcall rfl)
  | turn turn place => exact .inl (hcall rfl)
  | ask call => exact .inl (hcall rfl)
  | event kind path =>
    have hm : p ∈ (w.pool.session.handle kind path).candidates := hp
    by_cases hpath : p = path
    · subst hpath
      rw [← List.count_pos_iff, Session.count_handle, if_pos rfl] at hm
      cases kind with
      | created => exact .inr rfl
      | changed => exact .inl (List.count_pos_iff.1 hm)
      | deleted => exact .inl (List.count_pos_iff.1 (Nat.lt_of_lt_of_le hm (Nat.sub_le _ _)))
    · exact .inl ((Session.mem_handle_of_ne hpath).1 hm)
  | _ => exact .inl hp

/-- Whatever a call has gained since it stood at `fl`, as its answer or as files to visit, are
candidates. -/
structure Flight.Gains (candidates : List String) (fl fl' : Flight) : Prop where
  call : fl'.call = fl.call
  value : ∀ {found : List String}, fl'.value? = some (.paths found) →
    fl.value? = some (.paths found) ∨ ∀ p ∈ found, p ∈ candidates
  visiting : ∀ {b : Nat} {p : String}, fl'.branches[b]? = some (.visiting p) →
    fl.branches[b]? = some (.visiting p) ∨ p ∈ candidates

namespace Flight.Gains
variable {candidates : List String} {fl fl' : Flight}

theorem spread (h : fl.Gains candidates fl') {found : List String}
    (hf : ∀ p ∈ found, p ∈ candidates) :
    fl.Gains candidates { fl' with branches := fl'.branches ++ found.map .visiting } := by
  refine ⟨h.call, h.value, fun {b p} hb => ?_⟩
  rw [List.getElem?_append] at hb
  split at hb
  · exact h.visiting hb
  · obtain ⟨q, hq, he⟩ := List.mem_map.1 (List.mem_of_getElem? hb)
    cases he
    exact .inr (hf p hq)

theorem answer (h : fl.Gains candidates fl') {found : List String}
    (ha : fl'.answer? = some (.paths found)) :
    fl.answer? = some (.paths found) ∨ ∀ p ∈ found, p ∈ candidates := by
  unfold Flight.answer? at ha ⊢
  rw [h.call] at ha
  split at ha
  · split at ha <;> cases ha
  · split at ha <;> cases ha
  · exact h.value ha

end Flight.Gains

/-- What has been handed to a branch, and where it may stand without having moved. -/
def Stage.Handed (candidates : List String) (b : Nat) (fl : Flight) : Stage → Prop
  | .resting (.visiting p) => fl.branches[b]? = some (.visiting p)
  | .ascending found => ∀ p ∈ found, p ∈ candidates
  | _ => True

/-- An instant of branch `b` of a call that stood at `fl` when the turn began. -/
structure Instant.Gains (d : Standing) (b : Nat) (fl : Flight) (m : Instant) : Prop where
  holds : tidiness.Holds d m
  stage : m.stage.Handed d.candidates b fl
  flight : fl.Gains d.candidates m.flight

theorem Instant.Gains.next {files : Files} {d : Standing} {b : Nat} {fl : Flight} {m m' : Instant}
    (h : m.Gains d b fl) (hn : m.Next files m') : m'.Gains d b fl := by
  have hh := h.holds.next (tidiness_kept files) hn
  obtain ⟨⟨rfl, hs, -, hg⟩, hd, hf⟩ := h
  cases hn with
  | skip _ => exact ⟨hh, trivial, hf⟩
  | enter _ => exact ⟨hh, trivial, hf.call, hf.value, hf.visiting⟩
  | textKnown _ => exact ⟨hh, trivial, hf.call, nofun, hf.visiting⟩
  | askText _ => exact ⟨hh, trivial, hf⟩
  | takeText _ => exact ⟨hh, trivial, hf⟩
  | endText _ => exact ⟨hh, trivial, hf.call, nofun, hf.visiting⟩
  | callsKnown _ => exact ⟨hh, trivial, hf⟩
  | callsOfKnown _ _ => exact ⟨hh, trivial, hf⟩
  | askCalls _ _ => exact ⟨hh, trivial, hf⟩
  | takeCalls _ => exact ⟨hh, trivial, hf⟩
  | endCalls _ => exact ⟨hh, trivial, hf⟩
  | tell _ => exact ⟨hh, trivial, hf.call, nofun, hf.visiting⟩
  | report _ => exact ⟨hh, trivial, hf.call, hf.value, hf.visiting⟩
  | listKnown hl => exact ⟨hh, hs.lists hl, hf⟩
  | scan _ => exact ⟨hh, trivial, hf⟩
  | cell _ _ => exact ⟨hh, trivial, hf⟩
  | gather _ => exact ⟨hh, Session.Tidy.mem_settle hg.1, hf⟩
  | answer _ =>
    refine ⟨hh, trivial, hf.call, fun hv => ?_, hf.visiting⟩
    cases hv
    exact .inr hd
  | spread _ => exact ⟨hh, trivial, hf.spread hd⟩

theorem Instant.Gains.endsIn {files : Files} {d : Standing} {b : Nat} {fl : Flight} {m : Instant}
    {x : Session × Flight} (h : m.Gains d b fl) (hx : m.EndsIn files b x) :
    fl.Gains d.candidates x.2 := by
  obtain ⟨fl', branch, hr, he⟩ := hx.keeps (fun hn h => h.next hn) h
  rw [he]
  refine ⟨hr.flight.call, hr.flight.value, fun {c p} hc => ?_⟩
  rw [Flight.setBranch, List.getElem?_set] at hc
  split at hc
  · rename_i hbc
    split at hc
    · cases hc
      exact .inl (hbc ▸ hr.stage)
    · cases hc
  · exact hr.flight.visiting hc

/-- The answer of a call in flight, if it is at its end. -/
def Pool.answer? (p : Pool) (i : Nat) : Option Answer :=
  p.flights[i]?.bind Flight.answer?

/-- Answers and files to visit that calls have gained since `p` are candidates. -/
structure Pool.Gains (candidates : List String) (p p' : Pool) : Prop where
  answer : ∀ {i : Nat} {found : List String}, p'.answer? i = some (.paths found) →
    p.answer? i = some (.paths found) ∨ ∀ q ∈ found, q ∈ candidates
  visiting : ∀ {place : Place} {q : String}, p'.branch? place = some (.visiting q) →
    p.branch? place = some (.visiting q) ∨ q ∈ candidates

theorem Pool.Gains.of_flights {candidates : List String} {p p' : Pool}
    (h : ∀ {i : Nat} {fl' : Flight}, p'.flights[i]? = some fl' →
      (∃ fl, p.flights[i]? = some fl ∧ fl.Gains candidates fl') ∨
        ∃ call, Flight.Gains candidates { call } fl') : p.Gains candidates p' := by
  constructor
  · intro i found ha
    obtain ⟨fl', hf', ha⟩ := Option.bind_eq_some_iff.1 ha
    rcases h hf' with ⟨fl, hf, hg⟩ | ⟨call, hg⟩
    · rw [Pool.answer?, hf]
      exact hg.answer ha
    · refine .inr ((hg.answer ha).resolve_left fun hc => ?_)
      cases call <;> cases hc
  · intro place q hb
    simp only [Pool.branch?, bind] at hb ⊢
    obtain ⟨fl', hf', hb⟩ := Option.bind_eq_some_iff.1 hb
    rcases h hf' with ⟨fl, hf, hg⟩ | ⟨call, hg⟩
    · rw [hf]
      exact hg.visiting hb
    · refine .inr ((hg.visiting hb).resolve_left fun hc => ?_)
      have hm := List.mem_of_getElem? hc
      simp at hm

theorem Flight.Gains.refl (candidates : List String) (fl : Flight) : fl.Gains candidates fl :=
  ⟨rfl, .inl, .inl⟩

theorem Pool.gains_begin (files : Files) {p : Pool} (h : tidiness.pool p) (call : Call) :
    p.Gains p.session.candidates (p.begin call) := by
  have hm : (⟨p.session, { call }, call.stage⟩ : Instant).Gains p.session.standing 0 { call } :=
    ⟨Invariant.holds_begin h.1 call, by cases call <;> trivial, .refl _ _⟩
  have hg : Flight.Gains p.session.candidates { call } (p.session.beginCall call).2 := by
    rcases p.session.beginCall_endsIn files call with hx | ⟨path, -, hx⟩
    · exact hm.endsIn hx
    · rw [hx]
      exact .refl _ _
  refine .of_flights fun {i fl'} hi => ?_
  simp only [Pool.begin, List.getElem?_append] at hi
  split at hi
  · exact .inl ⟨fl', hi, .refl _ _⟩
  · rw [List.mem_singleton.1 (List.mem_of_getElem? hi)]
    exact .inr ⟨call, hg⟩

theorem Pool.gains_turn? {files : Files} {p p' : Pool} (h : tidiness.pool p) {turn : Turn}
    {place : Place} (ht : p.turn? files turn place = some p') :
    p.Gains p.session.candidates p' := by
  obtain ⟨fl, branch, next, hf, hb, hx, rfl⟩ := Pool.turn?_endsIn ht
  have hd : (Stage.resting branch).Handed p.session.candidates place.branch fl := by
    cases branch with
    | visiting path => exact hb
    | _ => trivial
  have hm : (⟨p.session, fl, .resting branch⟩ : Instant).Gains p.session.standing place.branch fl :=
    ⟨Invariant.holds_resting h hf hb, hd, .refl _ _⟩
  refine .of_flights fun {i fl'} hi => .inl ?_
  simp only [Pool.update, List.getElem?_set] at hi
  split at hi
  · rename_i hpi
    split at hi
    · cases hi
      exact ⟨fl, hpi ▸ hf, hm.endsIn hx⟩
    · cases hi
  · exact ⟨fl', hi, .refl _ _⟩

theorem World.gains_step {w : World} (h : tidiness.pool w.pool) (a : Act) :
    w.pool.Gains w.pool.session.candidates (w.step a).pool := by
  cases a with
  | begin call => exact Pool.gains_begin w.files h call
  | turn turn place =>
    cases ht : w.pool.turn? w.files turn place with
    | none =>
      simp only [World.step, ht, Option.getD_none]
      exact ⟨.inl, .inl⟩
    | some p' =>
      simp only [World.step, ht, Option.getD_some]
      exact Pool.gains_turn? h ht
  | _ => exact ⟨.inl, .inl⟩

/-- The world `w` some time after the deletion of `path` in a world that became `w₀`. -/
structure World.Gone (path : String) (w w₀ : World) : Prop where
  tidy : tidiness.pool w.pool
  candidates : path ∉ w.pool.session.candidates
  answer : ∀ {i : Nat} {found : List String}, w.pool.answer? i = some (.paths found) →
    path ∈ found → w₀.pool.answer? i = some (.paths found)
  visiting : ∀ {place : Place}, w.pool.branch? place = some (.visiting path) →
    w₀.pool.branch? place = some (.visiting path)

namespace World.Gone
variable {path : String} {w₀ w : World}

theorem of_deleted (h : tidiness.pool w.pool) (path : String) :
    (w.step (.event .deleted path)).Gone path (w.step (.event .deleted path)) := by
  refine ⟨tidiness_step h _, fun hp => ?_, fun ha _ => ha, fun hb => hb⟩
  have hm : path ∈ (w.pool.session.handle .deleted path).candidates := hp
  have hc := List.nodup_iff_count_le_one.1 h.1.nodup path
  rw [← List.count_pos_iff, Session.count_handle, if_pos rfl, EventKind.count] at hm
  omega

/-- Until it is created again a deleted file stays away, whatever happens next. -/
theorem step (h : w.Gone path w₀) {a : Act} (ha : a ≠ .event .created path) :
    (w.step a).Gone path w₀ := by
  have hg := World.gains_step h.tidy a
  refine ⟨tidiness_step h.tidy a, fun hp => ?_, fun {i found} hi hp => ?_, fun {place} hb => ?_⟩
  · rcases World.mem_candidates_step hp with hp | hp
    · exact h.candidates hp
    · exact ha hp
  · rcases hg.answer hi with hi | hf
    · exact h.answer hi hp
    · exact absurd (hf path hp) h.candidates
  · rcases hg.visiting hb with hb | hc
    · exact h.visiting hb
    · exact absurd hc h.candidates

theorem run (h : w.Gone path w₀) {acts : List Act} (ha : .event .created path ∉ acts) :
    (w.run acts).Gone path w₀ := by
  induction acts generalizing w with
  | nil => exact h
  | cons a acts ih =>
    rw [List.mem_cons, not_or] at ha
    exact ih (h.step (Ne.symm ha.1)) ha.2

end World.Gone

/-- From the deletion of a file until its next creation, whatever calls are under way: the file is no
candidate and in no list; who asks for importers or ancestors directly is not told of it; no call
that was still open at the deletion is answered with a list that holds it, whether the call began
before or after; and no search comes to it that had not come to it already. -/
theorem deleted_stays_gone (strict : Bool) (extension : String) {candidates : List String}
    (hn : candidates.Nodup) (slots : Nat) (files : Files) (before after : List Act) (path : String)
    (ha : .event .created path ∉ after) :
    let w₀ := (World.start strict extension candidates slots files).run
      (before ++ [.event .deleted path])
    let w := w₀.run after
    path ∉ w.pool.session.candidates ∧
    (∀ name found, w.pool.session.importers.lists.get? name = some found → path ∉ found) ∧
    (∀ name, path ∉ (w.pool.session.importersOf w.files name).1 ∧
      ∀ r ∈ (w.pool.session.ancestors w.files name).1, r.source ≠ path) ∧
    (∀ i found, w₀.pool.answer? i = none → w.pool.answer? i = some (.paths found) →
      path ∉ found) ∧
    ∀ place, w.pool.branch? place = some (.visiting path) →
      w₀.pool.branch? place = some (.visiting path) := by
  intro w₀ w
  have ht := tidiness_run _ (tidiness_start strict extension hn slots files) before
  have hd : w₀.Gone path w₀ := by
    have h := World.Gone.of_deleted ht path
    rwa [← World.run_concat] at h
  have hw : w.Gone path w₀ := hd.run ha
  refine ⟨hw.candidates, fun name found hl hp => hw.candidates (hw.tidy.1.lists hl path hp),
    fun name => ⟨fun hp => ?_, fun r hr hs => ?_⟩, fun i found hi hf hp => ?_,
    fun place hb => hw.visiting hb⟩
  · rw [Session.importersOf_fst] at hp
    exact hw.candidates (hw.tidy.1.mem_shownImporters hp)
  · obtain ⟨order, -, hm, he⟩ := Session.exists_visit_order w.files name w.pool.session
    rw [he, Session.mem_recordsOf, hs, hm] at hr
    exact hw.candidates (hw.tidy.1.mem_of_reachable hr.1)
  · rw [hw.answer hf hp] at hi
    cases hi

/-- A scan of two candidates that has read both of them. -/
def scanUnderWay : List Act :=
  [.begin (.importers "B"), .turn .start ⟨0, 0, some 0⟩, .turn .start ⟨0, 0, some 1⟩,
    .turn .take ⟨0, 0, some 0⟩, .turn .take ⟨0, 0, some 1⟩]

def scanEnd : List Act :=
  [.turn .complete ⟨0, 0, some 0⟩, .turn .complete ⟨0, 0, some 1⟩, .turn .gather ⟨0, 0, none⟩]

theorem deleted_stays_gone_underWay :
    let w₀ := (World.start false ".vue" ["/A.vue", "/C.vue"] 2
      fun _ => some "<script>import B from 'b'</script>").run
      (scanUnderWay ++ [.event .deleted "/A.vue"])
    let w := w₀.run scanEnd
    .event .created "/A.vue" ∉ scanEnd ∧ w₀.pool.answer? 0 = none ∧
      w.pool.answer? 0 = some (.paths ["/C.vue"]) ∧ "/A.vue" ∉ ["/C.vue"] := by
  intro w₀ w
  have ha : .event .created "/A.vue" ∉ scanEnd := by simp [scanEnd]
  have h₀ : w₀.pool.answer? 0 = none := rfl
  have hw : w.pool.answer? 0 = some (.paths ["/C.vue"]) := by
    have hc : w.pool.answer? 0 = some (.paths (([
        Cell.settled "/A.vue" (Source.importsName "<script>import B from 'b'</script>" "B"),
        Cell.settled "/C.vue" (Source.importsName "<script>import B from 'b'</script>" "B")
      ].filterMap Cell.importer?).filter (· ∈ ["/C.vue"]))) := rfl
    rw [hc, importsName_importing]
    decide
  have hn : ["/A.vue", "/C.vue"].Nodup := by decide
  have h := deleted_stays_gone false ".vue" hn 2
    (fun _ => some "<script>import B from 'b'</script>") scanUnderWay scanEnd "/A.vue" ha
  exact ⟨ha, h₀, hw, h.2.2.2.1 0 _ h₀ hw⟩

end Ancestry
