import Ancestry.Proofs.Session.Freshness
import Mathlib.Data.List.Nodup
import Mathlib.Data.List.Perm.Subperm

/-!
The lists of a strict session. Every event and every drop of all that is kept ends the epoch of the
lists: a scan that it overtakes is not kept, and what a deletion leaves in place it cleans of the
deleted file. So a kept list is right about every announced candidate, whatever scans were under
way while the files changed.
-/

namespace Ancestry
open Ancestry.Source
variable {files files' : Files} {sure sure' : String → Prop} {name path : String}

/-- A list of candidates in their order that is right about those in `sure`. -/
structure Selects (files : Files) (sure : String → Prop) (name : String)
    (candidates found : List String) : Prop where
  sublist : found.Sublist candidates
  mem_iff : ∀ p ∈ candidates, sure p → (p ∈ found ↔ importsName (files.textOf p) name)

namespace Selects
variable {candidates found : List String}

theorem mono (h : Selects files sure name candidates found)
    (hs : ∀ p, sure' p → sure p ∧ files'.textOf p = files.textOf p) :
    Selects files' sure' name candidates found := by
  refine ⟨h.sublist, fun p hp hsure => ?_⟩
  obtain ⟨hsure, hf⟩ := hs p hsure
  rw [hf]
  exact h.mem_iff p hp hsure

/-- Taking a file out of a list is as good as looking for the importers without it. -/
theorem erase (h : Selects files sure name candidates found) (hn : candidates.Nodup)
    (hs : ∀ p, sure' p → p = path ∨ sure p) :
    Selects files sure' name (candidates.erase path) (found.filter (· ≠ path)) := by
  constructor
  · have hf : candidates.erase path = candidates.filter (· ≠ path) := by
      rw [hn.erase_eq_filter]
      exact List.filter_congr fun p _ => by by_cases hp : p = path <;> simp [bne, hp]
    rw [hf]
    exact h.sublist.filter _
  · intro p hp hsure
    obtain ⟨hne, hp⟩ := (hn.mem_erase_iff).1 hp
    have hm := h.mem_iff p hp ((hs p hsure).resolve_left hne)
    simpa [List.mem_filter, hne] using hm

/-- A list that is right about every candidate holds just the importers. -/
theorem eq_filter (h : Selects files sure name candidates found) (hn : candidates.Nodup)
    (hs : ∀ p ∈ candidates, sure p) :
    found = candidates.filter fun p => importsName (files.textOf p) name := by
  have hin : ∀ p ∈ found, importsName (files.textOf p) name = true := by
    intro p hp
    have hc := h.sublist.subset hp
    exact (h.mem_iff p hc (hs p hc)).1 hp
  have hsub := h.sublist.filter fun p => importsName (files.textOf p) name
  rw [List.filter_eq_self.2 hin] at hsub
  have hall : (candidates.filter fun p => importsName (files.textOf p) name) ⊆ found := by
    intro p hp
    obtain ⟨hc, hi⟩ := List.mem_filter.1 hp
    exact (h.mem_iff p hc (hs p hc)).2 hi
  -- A sublist of a list without repetitions that holds all its members is the whole list.
  exact hsub.eq_of_length_le (List.subperm_of_subset (hn.filter _) hall).length_le

end Selects

theorem importers_sublist (cells : List Cell) :
    (cells.filterMap Cell.importer?).Sublist (cells.map Cell.path) := by
  induction cells with
  | nil => exact .slnil
  | cons cell cells ih =>
    rw [List.filterMap_cons, List.map_cons]
    cases cell with
    | settled p imports =>
      cases imports with
      | true => exact ih.cons_cons p
      | false => exact ih.cons p
    | idle p => exact ih.cons p
    | reading r => exact ih.cons r.path

theorem mem_importers {cells : List Cell} {p : String} :
    p ∈ cells.filterMap Cell.importer? ↔ .settled p true ∈ cells := by
  simp only [List.mem_filterMap]
  constructor
  · rintro ⟨cell, hc, hp⟩
    cases cell with
    | settled q imports =>
      cases imports with
      | true =>
        cases hp
        exact hc
      | false => cases hp
    | idle q => cases hp
    | reading r => cases hp
  · intro hc
    exact ⟨_, hc, rfl⟩

/-- The importers that the settled cells of a scan name are right where the cells are. -/
theorem selects_of_cells {cells : List Cell} (hall : cells.all Cell.isSettled)
    (hc : ∀ p imports, .settled p imports ∈ cells → sure p →
      imports = importsName (files.textOf p) name) :
    Selects files sure name (cells.map Cell.path) (cells.filterMap Cell.importer?) := by
  refine ⟨importers_sublist cells, fun p hp hsure => ?_⟩
  rw [mem_importers]
  constructor
  · intro hm
    exact (hc p true hm hsure).symm
  · intro hi
    obtain ⟨cell, hm, rfl⟩ := List.mem_map.1 hp
    have hset := List.all_eq_true.1 hall cell hm
    cases cell with
    | settled q imports =>
      have hv : imports = true := (hc q imports hm hsure).trans hi
      exact hv ▸ hm
    | idle q => cases hset
    | reading r => cases hset

/-- A strict session whose contents and lists are right about the files in `sure`. -/
structure Session.Coherent (files : Files) (sure : String → Prop) (s : Session) : Prop where
  strict : s.strict = true
  nodup : s.candidates.Nodup
  contents : s.contents.Current files sure
  lists : ∀ {name found}, s.importers.lists.get? name = some found →
    Selects files sure name s.candidates found

/-- The session is coherent, and so is each scan that was not overtaken: its cells are the
candidates, its reads may still be kept and its settled cells are right. -/
def coherence (files : Files) (sure : String → Prop) : Invariant where
  session := Session.Coherent files sure
  read := Read.Timely files sure
  scan d epoch paths := epoch ≤ d.listEpoch ∧ (epoch = d.listEpoch → paths = d.candidates)
  cell d name epoch
    | .idle _ => True
    | .reading r => r.Timely files sure d ∧ (epoch = d.listEpoch → r.mark = d.markOf r.path)
    | .settled p imports => epoch = d.listEpoch → sure p →
      imports = importsName (files.textOf p) name

namespace Session.Coherent
variable {s : Session}

theorem mono (h : s.Coherent files sure)
    (hs : ∀ p, sure' p → sure p ∧ files'.textOf p = files.textOf p) : s.Coherent files' sure' where
  strict := h.strict
  nodup := h.nodup
  contents := h.contents.mono hs
  lists hl := (h.lists hl).mono hs

theorem withContents (h : s.Coherent files sure) {c : Contents} (hc : c.Current files sure) :
    ({ s with contents := c } : Session).Coherent files sure :=
  ⟨h.strict, h.nodup, hc, h.lists⟩

theorem settle (h : s.Coherent files sure) (epoch : Nat) {found : List String}
    (hf : s.importers.epoch = epoch → Selects files sure name s.candidates found) :
    ({ s with importers := (s.importers.settle s.candidates name epoch found).2 } :
      Session).Coherent files sure := by
  unfold Importers.settle
  split
  · rename_i he
    refine ⟨h.strict, h.nodup, h.contents, fun {n l} hl => ?_⟩
    simp only [Table.get?_insert] at hl
    split at hl
    · rename_i hn
      cases hl
      exact hn ▸ hf he
    · exact h.lists hl
  · exact h

/-- Where all lists are dropped, nothing is left to be wrong. -/
theorem of_empty {t : Session} (hs : t.strict = true) (hn : t.candidates.Nodup)
    (hc : t.contents.Current files sure) (hl : t.importers.lists = .empty) :
    t.Coherent files sure where
  strict := hs
  nodup := hn
  contents := hc
  lists hg := by simp [hl] at hg

theorem of_refreshFile {t : Session} (ht : t.strict = true) (hn : t.candidates.Nodup)
    (hc : t.contents.Current files sure) (hs : ∀ p, sure' p → p = path ∨ sure p) :
    (t.refreshFile path).Coherent files sure' := by
  have hr : t.refreshFile path = (t.invalidateFile path).clearImporters := if_pos ht
  rw [hr]
  exact of_empty ht hn (hc.invalidate hs) rfl

/-- A deletion cleans the lists instead of dropping them. -/
theorem onDelete (h : s.Coherent files sure) (hs : ∀ p, sure' p → p = path ∨ sure p) :
    (s.onDelete path).Coherent files sure' := by
  refine ⟨h.strict, h.nodup.erase path, h.contents.invalidate hs, fun {n l} hl => ?_⟩
  simp only [Session.onDelete, Session.removeFromLists, Session.invalidateComponent,
    Importers.removeFile, Importers.invalidate, Table.get?_mapValues, Table.get?_erase] at hl
  split at hl
  · cases hl
  · obtain ⟨found, hf, rfl⟩ := Option.map_eq_some_iff.1 hl
    exact (h.lists hf).erase h.nodup hs

theorem handle (h : s.Coherent files sure) (kind : EventKind)
    (hs : ∀ p, sure' p → p = path ∨ sure p) : (s.handle kind path).Coherent files sure' := by
  cases kind with
  | created =>
    rw [Session.handle, Session.onCreate]
    split
    · exact of_refreshFile h.strict h.nodup h.contents hs
    · rename_i hp
      have hn : (s.candidates ++ [path]).Nodup := by simpa using h.nodup.concat hp
      exact of_refreshFile h.strict hn h.contents hs
  | changed => exact of_refreshFile h.strict h.nodup h.contents hs
  | deleted => exact h.onDelete hs

end Session.Coherent

theorem coherence_kept (files : Files) (sure : String → Prop) :
    (coherence files sure).Kept files where
  count _ _ h := ⟨h.strict, h.nodup, ⟨h.contents.texts, h.contents.calls⟩, h.lists⟩
  request := Read.Timely.request files sure
  take h := h.take
  keepText h hr ht := h.withContents (h.contents.keepText fun hp hm => hr.holds hp hm.symm ht)
  keepCalls h ht := h.withContents (h.contents.keepCalls fun hp _ => h.contents.texts hp ht)
  keepBoth h hr ht := h.withContents (h.contents.keepBoth fun hp hm => hr.holds hp hm.symm ht)
  openScan _ := ⟨Nat.le_refl _, fun _ => rfl⟩
  idleCell _ _ _ _ := trivial
  hitCell _ _ _ _ h ht := fun _ hp => by rw [h.contents.texts hp ht]
  requestCell d _ _ path := ⟨Read.Timely.request files sure d path, fun _ => rfl⟩
  takeCell h := ⟨h.1.take, h.2⟩
  readCell h := h.1
  settleCell h ht := fun he hp => by rw [h.1.holds hp (h.2 he) ht]
  settle scan h hs hc ha := by
    refine h.settle scan.epoch fun he => ?_
    have hp := hs.2 he.symm
    have hsel := selects_of_cells ha fun p imports hm => hc _ hm he.symm
    rwa [hp] at hsel

/-- The epoch of the lists has ended: all scans are overtaken, and only the reads go on. -/
theorem coherence_overtaken {p : Pool} {s : Session} (h : (coherence files sure).pool p)
    (hs : s.Coherent files sure') (he : p.session.importers.epoch < s.importers.epoch)
    (hr : ∀ r : Read, r.Timely files sure p.session.standing →
      r.Timely files sure' s.standing) :
    (coherence files sure').pool { p with session := s } := by
  have hne : ∀ {epoch : Nat}, epoch ≤ p.session.standing.listEpoch →
      epoch ≠ s.standing.listEpoch := by
    intro epoch hle
    exact Nat.ne_of_lt (Nat.lt_of_le_of_lt hle he)
  refine Invariant.pool_of_parts h hs hr ?_ ?_
  · intro epoch paths hn
    exact ⟨Nat.le_of_lt (Nat.lt_of_le_of_lt hn.1 he), fun heq => absurd heq (hne hn.1)⟩
  · intro name epoch paths cell hn hc
    cases cell with
    | idle q => trivial
    | reading r => exact ⟨hr r hc.1, fun heq => absurd heq (hne hn.1)⟩
    | settled q imports => exact fun heq => absurd heq (hne hn.1)

theorem coherence_mono {p : Pool} (h : (coherence files sure).pool p)
    (hs : ∀ p, sure' p → sure p ∧ files'.textOf p = files.textOf p) :
    (coherence files' sure').pool p := by
  refine Invariant.pool_of_parts h (h.1.mono hs) (fun r hr => hr.mono hs) (fun _ _ hn => hn) ?_
  intro name epoch paths cell _ hc
  cases cell with
  | idle q => trivial
  | reading r => exact ⟨hc.1.mono hs, hc.2⟩
  | settled q imports =>
    intro he hq
    obtain ⟨hq, hf⟩ := hs q hq
    rw [hf]
    exact hc he hq

/-- Each act but a drop of contents alone keeps sessions and scans coherent. -/
theorem coherence_step {w : World} (h : (coherence w.files sure).pool w.pool) {a : Act}
    (ha : a.isWhole) : (coherence (w.step a).files (a.announces sure)).pool (w.step a).pool := by
  have hcall : a.isCall → (coherence w.files (a.announces sure)).pool (w.step a).pool := by
    intro hc
    have hk := (Invariant.pool_step (coherence_kept w.files sure) h hc).1
    exact coherence_mono hk fun p hp => ⟨(Act.announces_call sure p hc).1 hp, rfl⟩
  cases a with
  | begin call => exact hcall rfl
  | turn turn place => exact hcall rfl
  | ask call => exact hcall rfl
  | put path text? =>
    refine coherence_mono h fun p hp => ?_
    obtain ⟨hne, hp⟩ := (Act.announces_put sure path p text?).1 hp
    exact ⟨hp, Files.textOf_put hne text? w.files⟩
  | event kind path =>
    have hs := fun p => (Act.announces_event sure path p kind).1
    -- The scans are overtaken. What the session keeps is right, also where a deletion cleans it.
    have hd := Session.drops_handle kind path w.pool.session
    exact coherence_overtaken h (h.1.handle kind hs) hd.epoch fun r hr => hr.invalidate hd.contents hs
  | clear =>
    have hs : w.pool.session.clear.Coherent w.files (Act.clear.announces sure) :=
      .of_empty h.1.strict h.1.nodup (.of_empty w.files _ rfl rfl) rfl
    exact coherence_overtaken h hs (Nat.lt_succ_self _) fun r hr => hr.clear rfl
  | invalidate path => cases ha
  | clearContents => cases ha

theorem coherence_run (w : World) (h : (coherence w.files (Announced · [])).pool w.pool)
    {acts : List Act} (ha : ∀ a ∈ acts, a.isWhole) :
    (coherence (w.run acts).files (Announced · acts)).pool (w.run acts).pool := by
  induction acts using List.reverseRecOn with
  | nil => exact h
  | append_singleton acts a ih =>
    rw [World.run_concat, announced_concat_eq]
    exact coherence_step (ih fun b hb => ha b (List.mem_append_left _ hb)) (ha a (by simp))

theorem coherent_run (extension : String) {candidates : List String} (hn : candidates.Nodup)
    (slots : Nat) (files : Files) {acts : List Act} (ha : ∀ a ∈ acts, a.isWhole) :
    let w := (World.start true extension candidates slots files).run acts
    w.pool.session.Coherent w.files (Announced · acts) := by
  have hs : (coherence files (Announced · [])).pool
      (World.start true extension candidates slots files).pool :=
    Invariant.pool_start (.of_empty rfl hn (.of_empty files _ rfl rfl) rfl)
  exact (coherence_run _ hs ha).1

/-- In every reachable state of a strict session in which the changes of all candidates were followed
by events, each kept list is what a search for the importers would find. Scans that were under way
while files changed, and lists that a deletion cleaned, are no exception. -/
theorem kept_list_eq_filter (extension : String) {candidates : List String}
    (hn : candidates.Nodup) (slots : Nat) (files : Files) {acts : List Act}
    (hw : ∀ a ∈ acts, a.isWhole) :
    let w := (World.start true extension candidates slots files).run acts
    (∀ p ∈ w.pool.session.candidates, Announced p acts) →
      ∀ name found, w.pool.session.importers.lists.get? name = some found →
        found = w.pool.session.candidates.filter fun p => importsName (w.files.textOf p) name := by
  intro w ha name found hl
  have h := coherent_run extension hn slots files hw
  exact (h.lists hl).eq_filter h.nodup ha

theorem importsName_importing : importsName "<script>import B from 'b'</script>" "B" = true := by
  have hb : scriptBlock.read "<script>import B from 'b'</script>".toList =
      some ("import B from 'b'".toList, []) := by decide +kernel
  have hs : script "<script>import B from 'b'</script>".toList = "import B from 'b'\n".toList := by
    rw [script, scriptBlock.all_of_read hb, Text.Recogniser.all_nil]
    decide +kernel
  have hi : importStatement.read "import B from 'b'\n".toList = some (["B".toList], ['\n']) := by
    decide +kernel
  have hn : importStatement.read ['\n'] = none := by decide +kernel
  rw [importsName, importedNames, hs, importStatement.all_of_read hi,
    importStatement.all_cons_of_none hn, Text.Recogniser.all_nil]
  decide +kernel

/-- A scan whose only candidate changes after it was read, and a second scan after the event. -/
def overtakenScan : List Act :=
  [.begin (.importers "B"), .turn .start ⟨0, 0, some 0⟩, .turn .take ⟨0, 0, some 0⟩,
    .put "/A.vue" (some "<script>import B from 'b'</script>"), .event .changed "/A.vue",
    .turn .complete ⟨0, 0, some 0⟩, .turn .gather ⟨0, 0, none⟩,
    .begin (.importers "B"), .turn .start ⟨1, 0, some 0⟩, .turn .take ⟨1, 0, some 0⟩,
    .turn .complete ⟨1, 0, some 0⟩, .turn .gather ⟨1, 0, none⟩]

theorem kept_list_eq_filter_overtaken :
    let w := (World.start true ".vue" ["/A.vue"] 2 fun _ => some "").run overtakenScan
    (∀ a ∈ overtakenScan, a.isWhole) ∧
      (∀ p ∈ w.pool.session.candidates, Announced p overtakenScan) ∧
      w.pool.session.importers.lists.get? "B" = some ["/A.vue"] ∧
      ["/A.vue"] =
        w.pool.session.candidates.filter fun p => importsName (w.files.textOf p) "B" := by
  intro w
  have hw : ∀ a ∈ overtakenScan, a.isWhole := by decide
  have ha : ∀ p, Announced p overtakenScan := by
    intro p
    simp [overtakenScan, announced_cons, announced_nil, Act.changes, Act.drops]
  have hl : w.pool.session.importers.lists.get? "B" = some ["/A.vue"] := by
    have hc : w.pool.session.importers.lists.get? "B" =
        some ([Cell.settled "/A.vue"
          (importsName "<script>import B from 'b'</script>" "B")].filterMap Cell.importer?) := rfl
    rw [hc, importsName_importing]
    rfl
  exact ⟨hw, fun p _ => ha p, hl,
    kept_list_eq_filter ".vue" (by decide) 2 _ hw (fun p _ => ha p) "B" _ hl⟩

end Ancestry
