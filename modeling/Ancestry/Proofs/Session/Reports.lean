import Ancestry.Proofs.Session.Deletion

/-!
What a search reports is current. A session that is not strict keeps lists that the imports of other
files have outrun, so a search may go ways that do not exist any more or miss new ones. Yet every
list holds candidates only and every file is looked up for itself: the way to a record may be out of
date, the record is not.
-/

namespace Ancestry
open Ancestry.Source

/-- After any history of events, drops, calls and changes, each search, strict or not, reports files
among the candidates, none twice, each under its last component and with at least one provide call.
The calls are those that the file holds now, if each change of this file was followed by an event or
a drop. -/
theorem reported_current (strict : Bool) (extension : String) {candidates : List String}
    (hn : candidates.Nodup) (slots : Nat) (files : Files) (acts : List Act) (name : String) :
    let w := (World.start strict extension candidates slots files).run acts
    let records := (w.pool.session.ancestors w.files name).1
    (records.map Record.source).Nodup ∧
      ∀ r ∈ records, r.source ∈ w.pool.session.candidates ∧ r.provides ≠ [] ∧
        r.name = (Path.ofString r.source).name ∧
        (Announced r.source acts → r.provides = provideCalls (w.files.textOf r.source)) := by
  intro w records
  have ht : w.pool.session.Tidy :=
    (tidiness_run _ (tidiness_start strict extension hn slots files) acts).1
  have hc : w.pool.session.contents.Current w.files (Announced · acts) :=
    current_run strict extension candidates slots files acts
  refine ⟨w.pool.session.nodup_sources w.files name, fun r hr => ?_⟩
  obtain ⟨order, -, hm, he⟩ := Session.exists_visit_order w.files name w.pool.session
  have hr : r ∈ (w.pool.session.ancestors w.files name).1 := hr
  rw [he, Session.mem_recordsOf, hm] at hr
  obtain ⟨hreach, hne, hrec⟩ := hr
  have hp : r.provides = w.pool.session.contents.shownCalls w.files r.source :=
    congrArg Record.provides hrec
  refine ⟨ht.mem_of_reachable hreach, hp ▸ hne, congrArg Record.name hrec, fun ha => ?_⟩
  rw [hp]
  exact hc.shownCalls_eq ha

theorem provideCalls_providing : provideCalls "provide(y, 2)" = ["provide(y, 2)"] := by
  have hr : call.read "provide(y, 2)".toList = some (⟨[], "y, 2".toList⟩, []) := by decide +kernel
  rw [provideCalls, call.all_of_read hr, call.all_nil]
  decide +kernel

/-- The only candidate is found to import `B`, and then it does not any more. -/
def outrunList : List Act :=
  [.ask (.importers "B"), .put "/A.vue" (some "provide(y, 2)"), .event .changed "/A.vue"]

theorem reported_current_outrun :
    let w := (World.start false ".vue" ["/A.vue"] 1
      fun _ => some "<script>import B from 'b'</script>").run outrunList
    let records := (w.pool.session.ancestors w.files "B").1
    ["/A.vue"].Nodup ∧ ⟨"A.vue", "/A.vue", ["provide(y, 2)"]⟩ ∈ records ∧
      "/A.vue" ∈ w.pool.session.candidates ∧
      ["provide(y, 2)"] = provideCalls (w.files.textOf "/A.vue") := by
  intro w records
  have hn : ["/A.vue"].Nodup := by decide
  have ha : Announced "/A.vue" outrunList := by decide
  have hl : w.pool.session.importers.lists.get? "B" = some ["/A.vue"] := by
    have hc : w.pool.session.importers.lists.get? "B" =
        some (if importsName "<script>import B from 'b'</script>" "B" then ["/A.vue"] else []) := rfl
    rw [hc, importsName_importing]
    rfl
  have hs : w.pool.session.contents.shownCalls w.files "/A.vue" = ["provide(y, 2)"] :=
    provideCalls_providing
  have hm : ⟨"A.vue", "/A.vue", ["provide(y, 2)"]⟩ ∈ records := by
    obtain ⟨order, -, ho, he⟩ := Session.exists_visit_order w.files "B" w.pool.session
    have hi : "/A.vue" ∈ w.pool.session.shownImporters w.files "B" := by
      rw [Session.shownImporters, hl]
      exact .head _
    change _ ∈ (w.pool.session.ancestors w.files "B").1
    rw [he, Session.mem_recordsOf, hs]
    exact ⟨(ho _).2 (.importer hi), List.cons_ne_nil _ _, rfl⟩
  have h := (reported_current false ".vue" hn 1 _ outrunList "B").2 _ hm
  exact ⟨hn, hm, h.1, h.2.2.2 ha⟩

end Ancestry
