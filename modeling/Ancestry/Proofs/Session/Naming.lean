import Ancestry.Proofs.Session.Counters
import Ancestry.Proofs.Session.Events
import Ancestry.Proofs.Source.ListedNames

/-!
Names that no import statement can list have no importers, now or ever: a scan for such a name finds
nothing, so whatever is kept under it is empty, and events only take files out of lists. A component
with such a name can get no answer.
-/

namespace Ancestry
open Ancestry.Source
variable {files : Files} {d : Standing} {s : Session} {fl : Flight} {m m' : Instant} {p p' : Pool}
variable {name : String} {b : Nat}

/-- Only names that can be listed have importers, kept or about to be found. -/
def naming : Invariant where
  session s := ∀ name found, s.importers.lists.get? name = some found → found ≠ [] →
    Listable name.toList
  read _ _ := True
  scan _ _ _ := True
  cell _ name _ cell := ∀ path ∈ cell.importer?, Listable name.toList

theorem listable_of_settled {path text : String} :
    ∀ p ∈ Cell.importer? (.settled path (importsName text name)), Listable name.toList := by
  intro p hp
  cases hi : importsName text name with
  | true => exact listable_of_importsName hi
  | false => simp [hi, Cell.importer?] at hp

theorem importers_eq_nil {scan : Scan} (hn : ¬ Listable scan.name.toList)
    (hc : ∀ cell ∈ scan.cells, naming.cell d scan.name scan.epoch cell) :
    scan.cells.filterMap Cell.importer? = [] := by
  rw [List.filterMap_eq_nil_iff]
  intro cell hm
  exact Option.eq_none_iff_forall_not_mem.2 fun path hp => hn (hc cell hm path hp)

theorem naming_settle (h : naming.session s) {scan : Scan}
    (hc : ∀ cell ∈ scan.cells, naming.cell d scan.name scan.epoch cell) :
    naming.session { s with
      importers := (s.importers.settle s.candidates scan.name scan.epoch
        (scan.cells.filterMap Cell.importer?)).2 } := by
  unfold Importers.settle
  split
  · intro name found hl hne
    rw [Table.get?_insert] at hl
    split at hl
    · rename_i hname
      cases hl
      rw [hname]
      exact Classical.not_not.1 fun hn => hne (importers_eq_nil hn hc)
    · exact h name found hl hne
  · exact h

theorem naming_kept (files : Files) : naming.Kept files where
  count _ _ h := h
  request _ _ := trivial
  take _ := trivial
  keepText h _ _ := h
  keepCalls h _ := h
  keepBoth h _ _ := h
  openScan _ := trivial
  idleCell _ _ _ _ := by simp [naming, Cell.importer?]
  hitCell _ _ _ _ _ _ := listable_of_settled
  requestCell _ _ _ _ := by simp [naming, Cell.importer?]
  takeCell _ := by simp [naming, Cell.importer?]
  readCell _ := trivial
  settleCell _ _ := listable_of_settled
  settle _ h _ hc _ := naming_settle h hc

/-- Lists that lost files, or were dropped, say nothing new. -/
theorem naming_of_lists (h : naming.pool p)
    (hl : ∀ {name found}, s.importers.lists.get? name = some found → found ≠ [] →
      ∃ kept, p.session.importers.lists.get? name = some kept ∧ kept ≠ []) :
    naming.pool { p with session := s } := by
  refine Invariant.pool_of_parts h ?_ (fun _ _ => trivial) (fun _ _ _ => trivial)
    (fun _ _ _ _ _ hc => hc)
  intro name found hf hn
  obtain ⟨kept, hk, hne⟩ := hl hf hn
  exact h.1 name kept hk hne

/-! Calls in flight for such a name come to no file. -/

/-- The component that a call names. -/
def Call.component? : Call → Option String
  | importers name | ancestors name => some name
  | text _ | provides _ | ancestorsOfFile _ => none

def Branch.Barren (name : String) : Branch → Prop
  | scanning scan => scan.name = name
  | finished => True
  | visiting _ | reading _ | looking _ => False

def Stage.Barren (name : String) : Stage → Prop
  | resting branch => branch.Barren name
  | exploring n => n = name
  | ascending found => found = []
  | opening _ | entering _ | reporting _ _ => False

/-- A call that has found nothing and looks for the importers of `name` only. -/
structure Flight.Barren (name : String) (fl : Flight) : Prop where
  value : ∀ answer ∈ fl.value?, answer = .paths []
  records : fl.records = []
  branches : ∀ branch ∈ fl.branches, branch.Barren name

/-- A call for a name that cannot be listed is barren. -/
def Flight.Sober (fl : Flight) : Prop :=
  ∀ name ∈ fl.call.component?, ¬ Listable name.toList → fl.Barren name

structure Instant.Sober (d : Standing) (m : Instant) : Prop where
  holds : naming.Holds d m
  barren : ∀ name ∈ m.flight.call.component?, ¬ Listable name.toList →
    m.stage.Barren name ∧ m.flight.Barren name

theorem Instant.Sober.next (h : m.Sober d) (hm : m.Next files m') : m'.Sober d := by
  have hh := h.holds.next (naming_kept files) hm
  obtain ⟨⟨rfl, hs, -, hg⟩, hb⟩ := h
  refine ⟨hh, fun name hc hn => ?_⟩
  cases hm with
  | listKnown hl =>
    obtain ⟨rfl, hf⟩ := hb name hc hn
    exact ⟨Classical.not_not.1 fun hne => hn (hs _ _ hl hne), hf⟩
  | scan hl => exact hb name hc hn
  | cell ho hx => exact hb name hc hn
  | gather hx =>
    obtain ⟨rfl, hf⟩ := hb name hc hn
    refine ⟨?_, hf⟩
    rw [importers_eq_nil hn hg.2]
    unfold Importers.settle
    split <;> rfl
  | answer hi =>
    obtain ⟨rfl, hf⟩ := hb name hc hn
    exact ⟨trivial, fun _ ha => (Option.some.inj ha).symm, hf.records, hf.branches⟩
  | spread hi =>
    obtain ⟨rfl, hf⟩ := hb name hc hn
    exact ⟨trivial, hf.value, hf.records, by simpa using hf.branches⟩
  | _ => exact (hb name hc hn).1.elim

theorem Instant.Sober.endsIn {x : Session × Flight} (h : m.Sober d) (hx : m.EndsIn files b x) :
    x.2.Sober := by
  obtain ⟨fl, branch, hr, he⟩ := hx.keeps (fun hm h => h.next hm) h
  rw [he]
  intro name hc hn
  obtain ⟨hb, hf⟩ := hr.barren name hc hn
  refine ⟨hf.value, hf.records, fun other ho => ?_⟩
  rcases List.mem_or_eq_of_mem_set ho with ho | rfl
  · exact hf.branches other ho
  · exact hb

theorem Pool.sober_begin (hp : naming.pool p) (h : ∀ fl ∈ p.flights, fl.Sober) (call : Call) :
    ∀ fl ∈ (p.begin call).flights, fl.Sober := by
  have hnew : Flight.Sober { call } := fun _ _ _ => ⟨nofun, rfl, List.forall_mem_singleton.2 trivial⟩
  have hm : Instant.Sober p.session.standing ⟨p.session, { call }, call.stage⟩ := by
    refine ⟨Invariant.holds_begin hp.1 call, fun name hc hn => ⟨?_, hnew name hc hn⟩⟩
    cases call <;> simp_all [Call.component?, Call.stage, Stage.Barren]
  intro fl hfl
  have hfl : fl ∈ p.flights ++ [(p.session.beginCall call).2] := hfl
  rcases List.mem_append.1 hfl with hfl | hfl
  · exact h fl hfl
  · rw [List.mem_singleton.1 hfl]
    rcases p.session.beginCall_endsIn (fun _ => none) call with hx | ⟨path, -, hx⟩
    · exact hm.endsIn hx
    · rw [hx]
      exact hnew

theorem Pool.sober_turn? (hp : naming.pool p) (h : ∀ fl ∈ p.flights, fl.Sober) {turn : Turn}
    {place : Place} (ht : p.turn? files turn place = some p') : ∀ fl ∈ p'.flights, fl.Sober := by
  obtain ⟨fl, branch, next, hf, hb, hx, rfl⟩ := Pool.turn?_endsIn ht
  have hs := h fl (List.mem_of_getElem? hf)
  have hm : Instant.Sober p.session.standing ⟨p.session, fl, .resting branch⟩ := by
    refine ⟨Invariant.holds_resting hp hf hb, fun name hc hn => ⟨?_, hs name hc hn⟩⟩
    exact (hs name hc hn).branches branch (List.mem_of_getElem? hb)
  intro other ho
  rcases List.mem_or_eq_of_mem_set ho with ho | rfl
  · exact h other ho
  · exact hm.endsIn hx

/-- Neither the lists nor the calls in flight know importers of a name that cannot be listed. -/
structure World.Sober (w : World) : Prop where
  naming : Ancestry.naming.pool w.pool
  flights : ∀ fl ∈ w.pool.flights, fl.Sober

theorem World.Sober.step {w : World} (h : w.Sober) (a : Act) : (w.step a).Sober := by
  have hcall : a.isCall → Ancestry.naming.pool (w.step a).pool :=
    fun ha => (Invariant.pool_step (naming_kept w.files) h.naming ha).1
  cases a with
  | put path text? => exact ⟨h.naming, h.flights⟩
  | begin call => exact ⟨hcall rfl, Pool.sober_begin h.naming h.flights call⟩
  | turn turn place =>
    refine ⟨hcall rfl, ?_⟩
    cases ht : w.pool.turn? w.files turn place with
    | none => simpa only [World.step, ht, Option.getD_none] using h.flights
    | some p' =>
      simpa only [World.step, ht, Option.getD_some] using Pool.sober_turn? h.naming h.flights ht
  | ask call => exact ⟨hcall rfl, h.flights⟩
  | event kind path =>
    refine ⟨naming_of_lists h.naming fun {name found} hl hne => ?_, h.flights⟩
    rw [Session.handle_eq] at hl
    obtain ⟨kept, hk, hm⟩ := Importers.mem_of_mem_handle hl
    obtain ⟨p, hp⟩ := List.exists_mem_of_ne_nil found hne
    exact ⟨kept, hk, List.ne_nil_of_mem (hm p hp).1⟩
  | clear => exact ⟨naming_of_lists h.naming (fun hl _ => by cases hl), h.flights⟩
  | invalidate path => exact ⟨naming_of_lists h.naming fun hl hne => ⟨_, hl, hne⟩, h.flights⟩
  | clearContents => exact ⟨naming_of_lists h.naming fun hl hne => ⟨_, hl, hne⟩, h.flights⟩

theorem World.Sober.move {w : World} (h : w.Sober) (m : Move) : (w.move m).Sober := by
  cases m with
  | act act => exact h.step act
  | invalidateComponent name =>
    refine ⟨naming_of_lists h.naming fun hl hne => ?_, h.flights⟩
    simp only [Session.invalidateComponent, Importers.invalidate, Table.get?_erase] at hl
    split at hl
    · cases hl
    · exact ⟨_, hl, hne⟩
  | removeFromLists path =>
    refine ⟨naming_of_lists h.naming fun hl hne => ?_, h.flights⟩
    simp only [Session.removeFromLists, Importers.removeFile, Table.get?_mapValues] at hl
    obtain ⟨kept, hk, rfl⟩ := Option.map_eq_some_iff.1 hl
    exact ⟨kept, hk, fun he => hne (by rw [he, List.filter_nil])⟩
  | clearImporters => exact ⟨naming_of_lists h.naming (fun hl _ => by cases hl), h.flights⟩
  | setCandidates paths => exact ⟨naming_of_lists h.naming fun hl hne => ⟨_, hl, hne⟩, h.flights⟩

theorem World.Sober.moves {w : World} (h : w.Sober) (ms : List Move) : (w.moves ms).Sober := by
  induction ms generalizing w with
  | nil => exact h
  | cons m ms ih => exact ih (h.move m)

theorem World.sober_start (strict : Bool) (extension : String) (candidates : List String)
    (slots : Nat) (files : Files) :
    (World.start strict extension candidates slots files).Sober := by
  refine ⟨Invariant.pool_start fun name found hl _ => ?_, by simp [World.start]⟩
  simp [Session.new, Importers.empty] at hl

theorem Session.importersOf_eq_nil (hs : naming.session s) (hn : ¬ Listable name.toList) :
    (s.importersOf files name).1 = [] := by
  rw [importersOf_fst, shownImporters]
  cases hl : s.importers.lists.get? name with
  | some found => exact Classical.not_not.1 fun hne => hn (hs name found hl hne)
  | none =>
    rw [Option.getD_none, List.filter_eq_nil_iff]
    exact fun p _ hi => hn (listable_of_importsName hi)

/-- Without importers there is nothing above a component. -/
theorem Session.ancestors_eq_nil (h : (s.importersOf files name).1 = []) :
    (s.ancestors files name).1 = [] := by
  rw [importersOf_fst] at h
  obtain ⟨order, -, hm, he⟩ := exists_visit_order files name s
  have hr : ∀ p, ¬ Reachable files s name p := by
    intro p hp
    induction hp with
    | importer hi => simp [h] at hi
    | above _ _ ih => exact ih
  have ho : order = [] := List.eq_nil_iff_forall_not_mem.2 fun p hp => hr p ((hm p).1 hp)
  rw [he, ho]
  rfl

theorem Flight.Barren.answer (h : fl.Barren name) {answer : Answer} (ha : fl.answer? = some answer) :
    (fl.call = .importers name → answer = .paths []) ∧
      (fl.call = .ancestors name → answer = .records []) := by
  refine ⟨fun hc => ?_, fun hc => ?_⟩ <;> rw [Flight.answer?, hc] at ha
  · exact h.value answer ha
  · obtain ⟨-, ha⟩ := Option.ite_none_right_eq_some.1 ha
    rw [← Option.some.inj ha, h.records]

/-- The names that some text imports are the listable ones. Whatever happens in a run, calls, events,
drops and changes of files and candidates, a component with another name has neither importers nor
ancestors: not for who asks directly, and not for a call that was under way meanwhile. -/
theorem unlistable_unanswered (strict : Bool) (extension : String) (candidates : List String)
    (slots : Nat) (files : Files) (ms : List Move) (name : String) :
    let w := (World.start strict extension candidates slots files).moves ms
    ((∃ text, importsName text name) ↔ Listable name.toList) ∧
      (¬ Listable name.toList →
        (w.pool.session.importersOf w.files name).1 = [] ∧
        (w.pool.session.ancestors w.files name).1 = [] ∧
        ∀ fl ∈ w.pool.flights, ∀ answer, fl.answer? = some answer →
          (fl.call = .importers name → answer = .paths []) ∧
          (fl.call = .ancestors name → answer = .records [])) := by
  intro w
  have hw : w.Sober := (World.sober_start strict extension candidates slots files).moves ms
  refine ⟨exists_importsName_iff name, fun hn => ?_⟩
  have hi : (w.pool.session.importersOf w.files name).1 = [] :=
    Session.importersOf_eq_nil hw.naming.1 hn
  refine ⟨hi, Session.ancestors_eq_nil hi, fun fl hfl answer ha => ?_⟩
  by_cases hc : name ∈ fl.call.component?
  · exact (hw.flights fl hfl name hc hn).answer ha
  · refine ⟨fun he => ?_, fun he => ?_⟩ <;> simp [he, Call.component?] at hc

theorem unlistable_unanswered_hyphen :
    let text := "<script>import \x7b user-card \x7d from './user-card.vue'</script>"
    let w := (World.start false ".vue" ["/App.vue"] 1 fun _ => some text).moves
      [.act (.ask (.importers "user-card")), .act (.begin (.ancestors "user-card"))]
    ¬ Listable "user-card".toList ∧ (∀ t, importsName t "user-card" = false) ∧
      (w.pool.session.importersOf w.files "user-card").1 = [] ∧
      (w.pool.session.ancestors w.files "user-card").1 = [] ∧
      ∃ fl ∈ w.pool.flights, fl.call = .ancestors "user-card" ∧ fl.answer? = some (.records []) := by
  intro text w
  have hn : ¬ Listable "user-card".toList := by decide
  have h := unlistable_unanswered false ".vue" ["/App.vue"] 1 (fun _ => some text)
    [.act (.ask (.importers "user-card")), .act (.begin (.ancestors "user-card"))] "user-card"
  have hi : ∀ t, importsName t "user-card" = false := by
    intro t
    simpa using fun ht => hn (h.1.1 ⟨t, ht⟩)
  have hw : w.pool.flights = [{
      call := .ancestors "user-card"
      branches := .finished ::
        (if importsName text "user-card" then ["/App.vue"] else []).map .visiting }] := rfl
  rw [hi text] at hw
  obtain ⟨hl, hr, hf⟩ := h.2 hn
  rw [hw, List.forall_mem_singleton] at hf
  refine ⟨hn, hi, hl, hr, _, hw ▸ List.mem_singleton_self _, rfl, ?_⟩
  exact congrArg some ((hf _ rfl).2 rfl)

end Ancestry
