import Ancestry.Proofs.Session.DirectCalls
import Ancestry.Proofs.Session.Reachability

/-!
Calls while no file changes and no event comes. Whatever they read is what the session shows: a file
is read only where nothing is kept of it, and a component is scanned for only where no list is kept.
So the calls under way, however many there are and in whatever order they move, leave what is shown
at their start as it is, and each list and each provide call that a branch is given is the one shown.
-/

namespace Ancestry
open Ancestry.Source
variable {files : Files} {s₀ s t : Session} {name path text : String} {calls found : List String}

namespace Contents.Alike
variable {c d : Contents}

/-- To keep a text that is shown anyway changes nothing of what is shown. -/
theorem keepText (h : c.Alike files d) (ht : text = c.shownText files path) (mark : Mark) :
    c.Alike files (d.keepText path mark text) := by
  unfold Contents.keepText
  split
  · have hs : ∀ p, shownText files { d with texts := d.texts.insert path text } p =
        d.shownText files p := by
      intro p
      rw [shownText, Table.get?_insert]
      split
      · rename_i hp
        rw [hp, h.texts, Option.getD_some, ht]
      · rfl
    refine ⟨fun p => (hs p).trans (h.texts p), fun p => ?_⟩
    have hc := h.calls p
    rw [shownCalls, ← hs p] at hc
    exact hc
  · exact h

theorem keepCalls (h : c.Alike files d) (hc : calls = c.shownCalls files path) (mark : Mark) :
    c.Alike files (d.keepCalls path mark calls) := by
  unfold Contents.keepCalls
  split
  · refine ⟨h.texts, fun p => ?_⟩
    rw [shownCalls, Table.get?_insert]
    split
    · rename_i hp
      rw [hp, Option.getD_some, hc]
    · exact h.calls p
  · exact h

end Contents.Alike

namespace Session

/-- The session shows what it showed at `s₀` and has the same candidates. -/
structure Shows (files : Files) (s₀ s : Session) : Prop where
  alike : s₀.Alike files s
  candidates : s.candidates = s₀.candidates

namespace Shows

theorem refl (files : Files) (s : Session) : s.Shows files s :=
  ⟨⟨rfl, ⟨fun _ => rfl, fun _ => rfl⟩, fun _ => rfl⟩, rfl⟩

theorem count (h : s₀.Shows files s) (stats stats' : Statistics) :
    s₀.Shows files { s with
      contents := { s.contents with stats }, importers := { s.importers with stats := stats' } } :=
  ⟨⟨h.alike.extension, ⟨h.alike.contents.texts, h.alike.contents.calls⟩, h.alike.importers⟩,
    h.candidates⟩

theorem withContents (h : s₀.Shows files s) {c : Contents} (hc : s₀.contents.Alike files c) :
    s₀.Shows files { s with contents := c } := by
  refine ⟨⟨h.alike.extension, hc, fun n => ?_⟩, h.candidates⟩
  have ht : ∀ p, c.shownText files p = s.contents.shownText files p :=
    fun p => (hc.texts p).trans (h.alike.contents.texts p).symm
  have hi := h.alike.importers n
  simp only [shownImporters, ht] at hi ⊢
  exact hi

/-- To keep a list that is shown anyway changes nothing either. -/
theorem settle (h : s₀.Shows files s) (hf : found = s₀.shownImporters files name)
    (candidates : List String) (epoch : Nat) :
    s₀.Shows files
      { s with importers := (s.importers.settle candidates name epoch found).2 } := by
  unfold Importers.settle
  split
  · refine ⟨⟨h.alike.extension, h.alike.contents, fun n => ?_⟩, h.candidates⟩
    rw [shownImporters, Table.get?_insert]
    split
    · rename_i hn
      rw [hn, Option.getD_some, hf]
    · exact h.alike.importers n
  · exact h

theorem keepRead (h : s₀.Shows files s) {r : Read}
    (ht : text = s₀.contents.shownText files r.path) : s₀.Shows files (s.keepRead r text) :=
  h.withContents (h.alike.contents.keepText ht r.mark)

theorem call (h : s₀.Shows files s) (call : Call) : s₀.Shows files (s.call files call).2 := by
  have ha : s.Alike files (s.call files call).2 := by
    cases call with
    | text path => exact alike_contents (Contents.alike_text files path s.contents)
    | provides path => exact alike_provides files path s
    | importers name => exact alike_importersOf files name s
    | ancestors name => exact alike_ancestors files name s
    | ancestorsOfFile path =>
      simp only [Session.call, ancestorsOfFile]
      split
      · exact alike_ancestors files _ s
      · exact (refl files s).alike
  have hc : (s.call files call).2.candidates = s.candidates :=
    congrArg Standing.candidates
      (Invariant.standing_step (a := .ask call) (w := ⟨files, ⟨s, 0, []⟩⟩) rfl)
  exact ⟨h.alike.trans ha, hc.trans h.candidates⟩

theorem endRead (h : s₀.Shows files s) {r : Read} {text? : Option String}
    (ht : Contents.textRead text? = s₀.contents.shownText files r.path) :
    s₀.Shows files (s.endRead r text?) := by
  obtain ⟨stats, hx⟩ := s.endRead_eq r text?
  rw [hx]
  exact (h.count stats s.importers.stats).keepRead ht

theorem takeText (h : s₀.Shows files s) (r : Read) :
    s₀.Shows files (s.takeText files r).1 :=
  h.count _ s.importers.stats

theorem shownText_of_none (h : s₀.Shows files s) (ht : s.contents.texts.get? path = none) :
    s₀.contents.shownText files path = files.textOf path := by
  rw [← h.alike.contents.texts, Contents.shownText_of_none ht]

theorem shownText_of_some (h : s₀.Shows files s) (ht : s.contents.texts.get? path = some text) :
    s₀.contents.shownText files path = text := by
  rw [← h.alike.contents.texts, Contents.shownText, ht, Option.getD_some]

theorem shownCalls_of_none (h : s₀.Shows files s) (hc : s.contents.calls.get? path = none) :
    s₀.contents.shownCalls files path = provideCalls (s₀.contents.shownText files path) := by
  rw [← h.alike.contents.calls, Contents.shownCalls, hc, Option.getD_none, h.alike.contents.texts]

theorem shownCalls_of_some (h : s₀.Shows files s) (hc : s.contents.calls.get? path = some calls) :
    s₀.contents.shownCalls files path = calls := by
  rw [← h.alike.contents.calls, Contents.shownCalls, hc, Option.getD_some]

theorem shownImporters_of_none (h : s₀.Shows files s)
    (hl : s.importers.lists.get? name = none) : s₀.shownImporters files name =
      s₀.candidates.filter fun p => importsName (s₀.contents.shownText files p) name := by
  rw [← h.alike.importers, shownImporters, hl, Option.getD_none, h.candidates]
  simp only [h.alike.contents.texts]

theorem shownImporters_of_some (h : s₀.Shows files s)
    (hl : s.importers.lists.get? name = some found) : s₀.shownImporters files name = found := by
  rw [← h.alike.importers, shownImporters, hl, Option.getD_some]

end Shows
end Session

/-- A read of a file of which no text was kept at the start. -/
structure Read.Faithful (files : Files) (s₀ : Session) (r : Read) : Prop where
  shown : s₀.contents.shownText files r.path = files.textOf r.path
  holds : ∀ {text? : Option String}, r.state = .holding text? →
    Contents.textRead text? = files.textOf r.path

def Cell.Faithful (files : Files) (s₀ : Session) (name : String) : Cell → Prop
  | .idle _ => True
  | .reading r => r.Faithful files s₀
  | .settled p imports => imports = importsName (s₀.contents.shownText files p) name

/-- A scan of all candidates for a component of which no list was kept at the start. -/
structure Scan.Faithful (files : Files) (s₀ : Session) (scan : Scan) : Prop where
  paths : scan.cells.map Cell.path = s₀.candidates
  shown : s₀.shownImporters files scan.name =
    s₀.candidates.filter fun p => importsName (s₀.contents.shownText files p) scan.name
  cells : ∀ cell ∈ scan.cells, cell.Faithful files s₀ scan.name

def Branch.Faithful (files : Files) (s₀ : Session) : Branch → Prop
  | .visiting p => ∃ n, p ∈ s₀.shownImporters files n
  | .reading r => r.Faithful files s₀
  | .looking r => r.Faithful files s₀ ∧
    s₀.contents.shownCalls files r.path = provideCalls (files.textOf r.path)
  | .scanning scan => scan.Faithful files s₀
  | .finished => True

def Stage.Faithful (files : Files) (s₀ : Session) : Stage → Prop
  | .resting branch => branch.Faithful files s₀
  | .reporting p calls => calls = s₀.contents.shownCalls files p
  | .ascending found => ∃ n, found = s₀.shownImporters files n
  | .opening _ | .entering _ | .exploring _ => True

structure Instant.Faithful (files : Files) (s₀ : Session) (m : Instant) : Prop where
  session : s₀.Shows files m.session
  branches : ∀ branch ∈ m.flight.branches, branch.Faithful files s₀
  stage : m.stage.Faithful files s₀

theorem Read.Faithful.request (h : s₀.Shows files s) (ht : s.contents.texts.get? path = none) :
    (s.contents.request path).1.Faithful files s₀ :=
  ⟨h.shownText_of_none ht, nofun⟩

theorem Read.Faithful.take {r : Read} (h : r.Faithful files s₀) (s : Session) :
    (s.takeText files r).2.Faithful files s₀ := by
  refine ⟨h.shown, fun ht => ?_⟩
  rw [← ReadState.holding.inj ht]
  rfl

theorem Read.Faithful.text_eq {r : Read} {text? : Option String} (h : r.Faithful files s₀)
    (ht : r.state = .holding text?) :
    Contents.textRead text? = s₀.contents.shownText files r.path :=
  (h.holds ht).trans h.shown.symm

theorem Cell.Faithful.next {old new : Cell} (h : s₀.Shows files s)
    (hc : old.Faithful files s₀ name) (hn : old.Next files name s t new) :
    s₀.Shows files t ∧ new.Faithful files s₀ name ∧ new.path = old.path := by
  cases hn with
  | known ht =>
    refine ⟨h.count _ _, ?_, rfl⟩
    rw [Cell.Faithful, h.shownText_of_some ht]
  | ask ht => exact ⟨h.count _ _, Read.Faithful.request h ht, rfl⟩
  | take hr =>
    rename_i r
    exact ⟨h.takeText r, hc.take s, rfl⟩
  | settle hr =>
    have hx := hc.text_eq hr
    refine ⟨h.endRead hx, ?_, rfl⟩
    rw [Cell.Faithful, hx]

theorem Scan.Faithful.setCell {scan : Scan} (h : scan.Faithful files s₀) {k : Nat} {old new : Cell}
    (ho : scan.cells[k]? = some old) (hn : new.Faithful files s₀ scan.name)
    (hp : new.path = old.path) :
    Scan.Faithful files s₀ { scan with cells := scan.cells.set k new } := by
  refine ⟨(Cell.paths_set ho hp).trans h.paths, h.shown, fun cell hc => ?_⟩
  rcases List.mem_or_eq_of_mem_set hc with hc | rfl
  · exact h.cells cell hc
  · exact hn

theorem Scan.Faithful.importers_eq {scan : Scan} (h : scan.Faithful files s₀)
    (hs : scan.isSettled) :
    scan.cells.filterMap Cell.importer? = s₀.shownImporters files scan.name := by
  have hc : ∀ cell ∈ scan.cells, cell =
      .settled cell.path (importsName (s₀.contents.shownText files cell.path) scan.name) := by
    intro cell hm
    have hf := h.cells cell hm
    have hset := List.all_eq_true.1 hs cell hm
    cases cell with
    | settled p imports => exact congrArg (Cell.settled p) hf
    | idle p => cases hset
    | reading r => cases hset
  have he : scan.cells = s₀.contents.settledCells files scan.name s₀.candidates := by
    rw [← h.paths, Contents.settledCells, List.map_map]
    exact (List.map_id scan.cells).symm.trans (List.map_congr_left hc)
  rw [he, Contents.importers_settledCells, h.shown]

/-- What a scan hands on is the list that is shown, also if it is not kept. -/
theorem Scan.Faithful.settle_fst {scan : Scan} (h : scan.Faithful files s₀) (hs : scan.isSettled)
    (hsh : s₀.Shows files s) :
    (s.importers.settle s.candidates scan.name scan.epoch
      (scan.cells.filterMap Cell.importer?)).1 = s₀.shownImporters files scan.name := by
  rw [h.importers_eq hs]
  unfold Importers.settle
  split
  · rfl
  · refine List.filter_eq_self.2 fun p hp => ?_
    rw [h.shown] at hp
    rw [hsh.candidates]
    simpa using (List.mem_filter.1 hp).1

theorem Scan.Faithful.begin (h : s₀.Shows files s) (hl : s.importers.lists.get? name = none)
    (epoch : Nat) : Scan.Faithful files s₀ ⟨name, epoch, s.candidates.map .idle⟩ := by
  refine ⟨?_, h.shownImporters_of_none hl, fun cell hc => ?_⟩
  · rw [List.map_map, h.candidates]
    exact List.map_id _
  · obtain ⟨p, -, rfl⟩ := List.mem_map.1 hc
    trivial

/-- Whatever follows on an instant, all that is under way agrees with what is shown. -/
theorem Instant.Faithful.next {m m' : Instant} (h : m.Faithful files s₀) (hn : m.Next files m') :
    m'.Faithful files s₀ := by
  obtain ⟨hs, hb, hg⟩ := h
  cases hn with
  | skip _ => exact ⟨hs, hb, trivial⟩
  | enter _ => exact ⟨hs, hb, trivial⟩
  | textKnown _ => exact ⟨hs.count _ _, hb, trivial⟩
  | askText ht => exact ⟨hs.count _ _, hb, Read.Faithful.request hs ht⟩
  | takeText hr =>
    rename_i s fl r
    exact ⟨hs.takeText r, hb, hg.take s⟩
  | endText hr => exact ⟨hs.endRead (hg.text_eq hr), hb, trivial⟩
  | callsKnown hc => exact ⟨hs.count _ _, hb, (hs.shownCalls_of_some hc).symm⟩
  | callsOfKnown hc ht =>
    rename_i s fl path text
    have he : Contents.callsIn text = s₀.contents.shownCalls files path := by
      rw [Contents.callsIn_eq, hs.shownCalls_of_none hc, hs.shownText_of_some ht]
    have hm : s₀.contents.Alike files s.contents.countCallsMiss.countTextHit :=
      (hs.count _ s.importers.stats).alike.contents
    exact ⟨hs.withContents (hm.keepCalls he _), hb, he⟩
  | askCalls hc ht =>
    have hr := Read.Faithful.request hs ht
    refine ⟨hs.count _ _, hb, ⟨hr.shown, nofun⟩, ?_⟩
    exact (hs.shownCalls_of_none hc).trans (congrArg provideCalls hr.shown)
  | takeCalls hr =>
    rename_i s fl r
    exact ⟨hs.takeText r, hb, hg.1.take s, hg.2⟩
  | endCalls hr =>
    rename_i s fl r text?
    have he : Contents.callsIn (Contents.textRead text?) = s₀.contents.shownCalls files r.path := by
      rw [Contents.callsIn_eq, hg.2, hg.1.holds hr]
    have hk := (hs.endRead (hg.1.text_eq hr)).alike.contents.keepCalls he r.mark
    exact ⟨hs.withContents hk, hb, he⟩
  | tell _ => exact ⟨hs, hb, trivial⟩
  | report _ => exact ⟨hs, hb, trivial⟩
  | listKnown hl => exact ⟨hs.count _ _, hb, _, (hs.shownImporters_of_some hl).symm⟩
  | scan hl => exact ⟨hs.count _ _, hb, Scan.Faithful.begin hs hl _⟩
  | cell ho hn =>
    obtain ⟨ht, hc, hp⟩ := Cell.Faithful.next hs (hg.cells _ (List.mem_of_getElem? ho)) hn
    exact ⟨ht, hb, hg.setCell ho hc hp⟩
  | gather hc =>
    exact ⟨hs.settle (hg.importers_eq hc) _ _, hb, _, hg.settle_fst hc hs⟩
  | answer _ => exact ⟨hs, hb, trivial⟩
  | spread _ =>
    refine ⟨hs, fun branch hm => ?_, trivial⟩
    rcases List.mem_append.1 hm with hm | hm
    · exact hb branch hm
    · obtain ⟨p, hp, rfl⟩ := List.mem_map.1 hm
      obtain ⟨n, hn⟩ := hg
      exact ⟨n, hn ▸ hp⟩

end Ancestry
