import Ancestry.Proofs.Session.StrictImporters

/-!
Caches that cannot be seen. Sessions that show the same give the same answers, whatever each of them
keeps, and a coherent session shows what a new one does. So a strict session answers every call as
if nothing had been kept.
-/

namespace Ancestry
open Ancestry.Source

namespace Session
variable {files : Files} {s t : Session}

namespace Alike

theorem text_fst (h : s.Alike files t) (path : String) :
    (t.text files path).1 = (s.text files path).1 := by
  have hs : (s.text files path).1 = s.contents.shownText files path :=
    Contents.text_fst files path s.contents
  have ht : (t.text files path).1 = t.contents.shownText files path :=
    Contents.text_fst files path t.contents
  rw [hs, ht, h.contents.texts]

theorem provides_fst (h : s.Alike files t) (path : String) :
    (t.provides files path).1 = (s.provides files path).1 := by
  have hs : (s.provides files path).1 = s.contents.shownCalls files path :=
    Contents.provides_fst files path s.contents
  have ht : (t.provides files path).1 = t.contents.shownCalls files path :=
    Contents.provides_fst files path t.contents
  rw [hs, ht, h.contents.calls]

theorem importersOf_fst (h : s.Alike files t) (name : String) :
    (t.importersOf files name).1 = (s.importersOf files name).1 := by
  rw [Session.importersOf_fst, Session.importersOf_fst, h.importers]

theorem provides (h : s.Alike files t) (path : String) :
    (s.provides files path).2.Alike files (t.provides files path).2 :=
  (alike_provides files path s).symm.trans (h.trans (alike_provides files path t))

theorem importersOf (h : s.Alike files t) (name : String) :
    (s.importersOf files name).2.Alike files (t.importersOf files name).2 :=
  (alike_importersOf files name s).symm.trans (h.trans (alike_importersOf files name t))

/-- Two searches with the same files in front go the same way, also where one finds in its lists
what the other has to look for. -/
theorem visitAll_fst {known known' visited pending : List String} {records : List Record}
    (hs : s.Within known) (hp : ∀ p ∈ pending, p ∈ known) (h : s.Alike files t)
    (ht : t.Within known') (hp' : ∀ p ∈ pending, p ∈ known') :
    (visitAll files known' visited records pending t ht hp').1 =
      (visitAll files known visited records pending s hs hp).1 := by
  revert t hp'
  induction visited, records, pending, s, hs, hp using visitAll.induct files known with
  | case1 visited records s hs hp =>
    intro t h ht hp'
    rw [visitAll, visitAll]
  | case2 visited records s hs path rest hp hv _ ih =>
    intro t h ht hp'
    rw [visitAll, visitAll, if_pos hv, if_pos hv]
    exact ih h ht _
  | case3 visited records s hs path rest hp hv calls records' found hf _ =>
    rename_i ih
    intro t h ht hp'
    -- One may keep what the other has to read, but both report the file and meet its importers.
    have hn := h.provides path
    rw [visitAll, visitAll, if_neg hv, if_neg hv]
    simp only [h.provides_fst, hn.importersOf_fst]
    exact ih (hn.importersOf _) _ _

theorem ancestors_fst (h : s.Alike files t) (name : String) :
    (t.ancestors files name).1 = (s.ancestors files name).1 := by
  simp only [ancestors, h.importersOf_fst]
  exact visitAll_fst _ _ (h.importersOf name) _ _

/-- Every call has the same answer. -/
theorem call_fst (h : s.Alike files t) (call : Call) :
    (t.call files call).1 = (s.call files call).1 := by
  cases call with
  | text path => simp only [call, Prod.map_fst, h.text_fst]
  | provides path => simp only [call, Prod.map_fst, h.provides_fst]
  | importers name => simp only [call, Prod.map_fst, h.importersOf_fst]
  | ancestors name => simp only [call, Prod.map_fst, h.ancestors_fst]
  | ancestorsOfFile path =>
    have hc : t.isComponent path = s.isComponent path := by
      rw [isComponent, isComponent, h.extension]
    simp only [call, Prod.map_fst, ancestorsOfFile, hc]
    by_cases hp : s.isComponent path
    · rw [if_pos hp, if_pos hp, h.ancestors_fst]
    · rw [if_neg hp, if_neg hp]

end Alike

/-- What is right about all files is what a new session would find in them. -/
theorem Coherent.alike_new {sure : String → Prop} (h : s.Coherent files sure)
    (hs : ∀ p, sure p) (strict : Bool) :
    (Session.new strict s.extension s.candidates).Alike files s := by
  have ht : ∀ p, s.contents.shownText files p = files.textOf p :=
    fun p => h.contents.shownText_eq (hs p)
  have hc : ∀ p, s.contents.shownCalls files p = provideCalls (files.textOf p) :=
    fun p => h.contents.shownCalls_eq (hs p)
  have hl : ∀ name, s.shownImporters files name =
      s.candidates.filter fun p => importsName (files.textOf p) name := by
    intro name
    cases hg : s.importers.lists.get? name with
    | none => simp only [shownImporters, hg, Option.getD_none, ht]
    | some found =>
      rw [shownImporters, hg, Option.getD_some]
      exact (h.lists hg).eq_filter h.nodup fun p _ => hs p
  exact ⟨rfl, ⟨ht, hc⟩, hl⟩

end Session

namespace World

theorem extension_step (w : World) (a : Act) :
    (w.step a).pool.session.extension = w.pool.session.extension := by
  have hcall : a.isCall → (w.step a).pool.session.extension = w.pool.session.extension :=
    fun ha => congrArg Standing.extension (Invariant.standing_step ha)
  cases a with
  | begin call => exact hcall rfl
  | turn turn place => exact hcall rfl
  | ask call => exact hcall rfl
  | event kind path => exact (Session.drops_handle kind path w.pool.session).extension
  | _ => rfl

theorem extension_run (w : World) (acts : List Act) :
    (w.run acts).pool.session.extension = w.pool.session.extension := by
  induction acts generalizing w with
  | nil => rfl
  | cons a acts ih => exact (ih (w.step a)).trans (w.extension_step a)

end World

/-- In every reachable state of a strict session in which all changes of files were followed by
events, whatever was asked before, each call has the answer that a new session of the same candidates
gives. -/
theorem strict_call_eq_new (extension : String) {candidates : List String}
    (hn : candidates.Nodup) (slots : Nat) (files : Files) {acts : List Act}
    (hw : ∀ a ∈ acts, a.isWhole) (ha : ∀ p, Announced p acts) (call : Call) :
    let w := (World.start true extension candidates slots files).run acts
    (w.pool.session.call w.files call).1 =
      ((Session.new true extension w.pool.session.candidates).call w.files call).1 := by
  intro w
  have h : w.pool.session.Coherent w.files (Announced · acts) :=
    coherent_run extension hn slots files hw
  have he : w.pool.session.extension = extension := World.extension_run _ acts
  have hs := h.alike_new ha true
  rw [he] at hs
  exact hs.call_fst call

/-- A file that is changed between two questions. -/
def askedTwice : List Act :=
  [.ask (.importers "B"), .put "/A.vue" (some "<script>import B from 'b'</script>"),
    .event .changed "/A.vue", .ask (.importers "B")]

theorem strict_call_eq_new_askedTwice :
    let w := (World.start true ".vue" ["/A.vue"] 2 fun _ => some "").run askedTwice
    (∀ a ∈ askedTwice, a.isWhole) ∧ (∀ p, Announced p askedTwice) ∧
      w.pool.session.importers.lists.get? "B" = some ["/A.vue"] ∧
      (w.pool.session.call w.files (.ancestors "B")).1 =
        ((Session.new true ".vue" ["/A.vue"]).call w.files (.ancestors "B")).1 := by
  intro w
  have hw : ∀ a ∈ askedTwice, a.isWhole := by decide
  have ha : ∀ p, Announced p askedTwice := by
    intro p
    simp [askedTwice, announced_cons, announced_nil, Act.changes, Act.drops]
  have hl : w.pool.session.importers.lists.get? "B" =
      some (if importsName "<script>import B from 'b'</script>" "B" then ["/A.vue"] else []) := rfl
  rw [importsName_importing] at hl
  exact ⟨hw, ha, hl, strict_call_eq_new ".vue" (by decide) 2 _ hw ha (.ancestors "B")⟩

end Ancestry
