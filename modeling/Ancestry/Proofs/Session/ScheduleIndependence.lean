import Ancestry.Proofs.Session.Completion

/-!
The search does not depend on its schedule. Calls begin, take turns and are asked in any order while
no file changes and no event comes. A search among them ends, whatever the schedule, with the records
of a search that runs alone from the same start, in an order of its own.
-/

namespace Ancestry

theorem World.slots_step (w : World) (a : Act) : (w.step a).pool.slots = w.pool.slots := by
  cases a with
  | turn turn place =>
    cases ht : w.pool.turn? w.files turn place with
    | none => simp only [World.step, ht, Option.getD_none]
    | some p' =>
      obtain ⟨fl, branch, next, -, -, -, rfl⟩ := Pool.turn?_endsIn ht
      simp only [World.step, ht, Option.getD_some]
      rfl
  | _ => rfl

theorem World.slots_run (w : World) (acts : List Act) : (w.run acts).pool.slots = w.pool.slots := by
  induction acts generalizing w with
  | nil => rfl
  | cons a acts ih => exact (ih (w.step a)).trans (w.slots_step a)

/-- From any session and files, after calls in any number and order: the turns that can follow are
bounded in number. When a search has an answer, it holds the records of the search that runs alone,
each as often and no source twice. A search without an answer can always go on, unless there are no
slots. -/
theorem search_schedule_independent (files : Files) (s : Session) (slots : Nat) {acts : List Act}
    (ha : ∀ a ∈ acts, a.isCall) :
    let p := (World.run ⟨files, ⟨s, slots, []⟩⟩ acts).pool
    (∃ bound, ∀ turns p', p.turns? files turns = some p' → turns.length ≤ bound) ∧
      ∀ fl ∈ p.flights, ∀ name, fl.call = .ancestors name →
        (∀ records, fl.answer? = some (.records records) →
          records.Perm (s.ancestors files name).1 ∧ (records.map Record.source).Nodup) ∧
        (0 < slots → p.Still files → ∃ records, fl.answer? = some (.records records)) := by
  intro p
  have h₀ : Pool.Steady files s ⟨s, slots, []⟩ := ⟨.refl files s, nofun⟩
  have hp : p.Steady files s := (Pool.Steady.run (w := ⟨files, ⟨s, slots, []⟩⟩) h₀ ha).2
  have hbound : ∀ turns p', p.turns? files turns = some p' → turns.length ≤ p.cost s.known :=
    fun turns p' ht => hp.length_turns?_le ht
  refine ⟨⟨_, hbound⟩, fun fl hfl name hc => ⟨?_, ?_⟩⟩
  · intro records hr
    have hperm := (hp.flights fl hfl).answer hc hr
    refine ⟨hperm, ?_⟩
    rw [(hperm.map Record.source).nodup_iff]
    exact s.nodup_sources files name
  · intro hs hstill
    have hslots : p.slots = slots := World.slots_run ⟨files, ⟨s, slots, []⟩⟩ acts
    have hb : fl.branches.all (· = .finished) := by
      refine List.all_eq_true.2 fun branch hm => decide_eq_true ?_
      exact hstill.finished (hslots ▸ hs) hfl hm
    refine ⟨fl.records, ?_⟩
    rw [Flight.answer?, hc]
    exact if_pos hb

/-- Two files import `B`, and one imports both of them. Nothing is kept of the last one but who
imports it. -/
def diamond : Session where
  strict := false
  extension := ".vue"
  candidates := []
  contents := { Contents.empty with
    calls := ⟨[("/A.vue", ["provide(x, 1)"]), ("/C.vue", ["provide(y, 2)"])]⟩ }
  importers := { Importers.empty with
    lists := ⟨[("B", ["/A.vue", "/C.vue"]), ("A", ["/D.vue"]), ("C", ["/D.vue"]), ("D", [])]⟩ }

/-- The second importer comes first, and the file above is visited on the way that was found last. -/
def diamondTurns : List Act :=
  [.begin (.ancestors "B"), .turn .start ⟨0, 2, none⟩, .turn .start ⟨0, 1, none⟩,
    .turn .start ⟨0, 4, none⟩, .turn .start ⟨0, 3, none⟩, .turn .take ⟨0, 4, none⟩,
    .turn .complete ⟨0, 4, none⟩]

theorem search_schedule_independent_diamond :
    let p := (World.run ⟨fun _ => some "", ⟨diamond, 1, []⟩⟩ diamondTurns).pool
    let records : List Record :=
      [⟨"C.vue", "/C.vue", ["provide(y, 2)"]⟩, ⟨"A.vue", "/A.vue", ["provide(x, 1)"]⟩]
    (∀ a ∈ diamondTurns, a.isCall) ∧
      (∃ fl ∈ p.flights, fl.call = .ancestors "B" ∧ fl.answer? = some (.records records)) ∧
      records.Perm (diamond.ancestors (fun _ => some "") "B").1 := by
  intro p records
  have ha : ∀ a ∈ diamondTurns, a.isCall := by decide
  have hr : ∃ fl ∈ p.flights, fl.call = .ancestors "B" ∧
      fl.answer? = some (.records records) := ⟨_, .head _, rfl, rfl⟩
  refine ⟨ha, hr, ?_⟩
  obtain ⟨fl, hfl, hc, hx⟩ := hr
  have h := search_schedule_independent (fun _ => some "") diamond 1 ha
  exact ((h.2 fl hfl "B" hc).1 records hx).1

end Ancestry
