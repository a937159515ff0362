import Ancestry.Proofs.Session.Run
import Ancestry.Proofs.Session.Turns

/-!
A call that is answered at once does nothing that a call in flight could not do: its reads end as soon
as they have begun, and its scans settle one cell after the other. So it keeps every invariant that
turns keep.
-/

namespace Ancestry
open Ancestry.Source

/-- The cells of a scan, each settled by what is shown of its path. -/
def Contents.settledCells (files : Files) (c : Contents) (name : String) (paths : List String) :
    List Cell :=
  paths.map fun p => .settled p (importsName (c.shownText files p) name)

theorem Contents.paths_settledCells (files : Files) (c : Contents) (name : String)
    (paths : List String) : (c.settledCells files name paths).map Cell.path = paths := by
  rw [settledCells, List.map_map]
  exact List.map_id paths

theorem Contents.importers_settledCells (files : Files) (c : Contents) (name : String)
    (paths : List String) :
    (c.settledCells files name paths).filterMap Cell.importer? =
      paths.filter fun p => importsName (c.shownText files p) name := by
  induction paths with
  | nil => rfl
  | cons p paths ih =>
    rw [settledCells, List.map_cons, List.filterMap_cons, List.filter_cons]
    cases importsName (c.shownText files p) name with
    | true => exact congrArg (p :: ·) ih
    | false => exact ih

namespace Invariant
variable {I : Invariant} {files : Files} {d : Standing} {s : Session}

/-- The invariant of a session that stands at `d`. -/
structure At (I : Invariant) (d : Standing) (s : Session) : Prop where
  standing : s.standing = d
  session : I.session s

section Calls
variable (hk : I.Kept files)
include hk

theorem at_text (h : I.At d s) (path : String) : I.At d (s.text files path).2 := by
  cases ht : s.contents.texts.get? path with
  | some text =>
    rw [Session.text, Contents.text_of_some ht]
    exact ⟨h.standing, hk.count _ s.importers.stats h.session⟩
  | none =>
    -- A read that takes its text and ends at once.
    obtain ⟨stats, hs⟩ := Contents.text_of_none files ht
    have hr : I.read s.standing
        ⟨path, s.contents.markOf path, .holding (files path)⟩ :=
      hk.take (hk.request s.standing path)
    have hc := hk.count stats s.importers.stats h.session
    have hn := hk.keepText hc hr rfl
    rw [Session.text, hs]
    simp only [Session.keepRead, Contents.keepText, Contents.markOf, if_true] at hn
    exact ⟨h.standing, hn⟩

theorem at_provides (h : I.At d s) (path : String) : I.At d (s.provides files path).2 := by
  cases hc : s.contents.calls.get? path with
  | some calls =>
    rw [Session.provides, Contents.provides_of_some hc]
    exact ⟨h.standing, hk.count _ s.importers.stats h.session⟩
  | none =>
    rw [Session.provides, Contents.provides_of_none hc]
    cases ht : s.contents.texts.get? path with
    | some text =>
      have hm : s.contents.countCallsMiss.texts.get? path = some text := ht
      have hs := hk.count s.contents.countCallsMiss.countTextHit.stats s.importers.stats h.session
      have hn := hk.keepCalls hs ht
      rw [Contents.text_of_some hm, Contents.shownText, ht, Option.getD_some]
      simp only [Contents.keepCalls, if_true, Contents.callsIn_eq] at hn
      exact ⟨h.standing, hn⟩
    | none =>
      have hm : s.contents.countCallsMiss.texts.get? path = none := ht
      obtain ⟨stats, hx⟩ := Contents.text_of_none files hm
      have hr : I.read s.standing
          ⟨path, s.contents.markOf path, .holding (files path)⟩ :=
        hk.take (hk.request s.standing path)
      have hn := hk.keepBoth (hk.count stats s.importers.stats h.session) hr rfl
      rw [hx, Contents.shownText_of_none ht]
      simp only [Contents.keepText, Contents.keepCalls, Contents.markOf, if_true,
        Contents.callsIn_eq] at hn
      exact ⟨h.standing, hn⟩

/-- A candidate that is read at once is settled as a cell would be. -/
theorem cell_shown (h : I.At d s) (name : String) (epoch : Nat) (path : String) :
    I.cell d name epoch
      (.settled path (importsName (s.contents.shownText files path) name)) := by
  cases hg : s.contents.texts.get? path with
  | some text =>
    rw [Contents.shownText, hg, Option.getD_some, ← h.standing]
    exact hk.hitCell name epoch h.session hg
  | none =>
    rw [Contents.shownText_of_none hg]
    exact hk.settleCell (hk.takeCell (hk.requestCell d name epoch path)) rfl

theorem at_importersAmong (s : Session) (name : String) (epoch : Nat) (paths : List String)
    {c : Contents} (h : I.At d { s with contents := c }) :
    I.At d { s with contents := (Session.importersAmong files name paths c).2 } ∧
      ∀ cell ∈ c.settledCells files name paths, I.cell d name epoch cell := by
  induction paths generalizing c with
  | nil => exact ⟨h, by simp [Contents.settledCells]⟩
  | cons path paths ih =>
    have ht : I.At d { s with contents := (c.text files path).2 } := at_text hk h path
    obtain ⟨hn, hcells⟩ := ih ht
    simp only [Contents.settledCells, (Contents.alike_text files path c).texts] at hcells
    refine ⟨hn, ?_⟩
    intro cell hc
    rcases List.mem_cons.1 hc with rfl | hc
    · exact cell_shown hk h name epoch path
    · exact hcells cell hc

theorem at_importersOf (h : I.At d s) (name : String) : I.At d (s.importersOf files name).2 := by
  cases hl : s.importers.lists.get? name with
  | some found =>
    rw [Session.importersOf_of_some hl]
    exact ⟨h.standing, hk.count s.contents.stats _ h.session⟩
  | none =>
    have hm : I.At d { s with importers := s.importers.countMiss } :=
      ⟨h.standing, hk.count s.contents.stats _ h.session⟩
    obtain ⟨hn, hcells⟩ := at_importersAmong hk { s with importers := s.importers.countMiss } name
      s.importers.epoch s.candidates hm
    have hp := Contents.paths_settledCells files s.contents name s.candidates
    have ho := hk.openScan hn.session
    rw [← h.standing] at hcells
    have hx := hk.settle ⟨name, s.importers.epoch, s.contents.settledCells files name s.candidates⟩
      hn.session (by rw [hp]; exact ho) (by rw [hn.standing, ← h.standing]; exact hcells)
      (by simp [Scan.isSettled, Contents.settledCells, Cell.isSettled])
    have hf : s.shownImporters files name =
        s.candidates.filter fun p => importsName (s.contents.shownText files p) name := by
      rw [Session.shownImporters, hl, Option.getD_none]
    rw [Session.importersOf_of_none hl, hf, ← Contents.importers_settledCells]
    have he : s.importers.countMiss.epoch = s.importers.epoch := rfl
    simp only [Importers.settle, he, if_true] at hx
    exact ⟨hn.standing, hx⟩

theorem at_visitAll {known visited pending : List String} {records : List Record}
    (hs : s.Within known) (hp : ∀ p ∈ pending, p ∈ known) (h : I.At d s) :
    I.At d (Session.visitAll files known visited records pending s hs hp).2 := by
  obtain ⟨_, ha⟩ := Session.visitAll_keeps (motive := fun _ _ _ t => I.At d t) (fun _ h => h)
    (fun _ h => at_importersOf hk (at_provides hk h _) _) hs hp h
  exact ha

theorem at_ancestors (h : I.At d s) (name : String) : I.At d (s.ancestors files name).2 :=
  at_visitAll hk _ _ (at_importersOf hk h name)

theorem at_call (h : I.At d s) (call : Call) : I.At d (s.call files call).2 := by
  cases call with
  | text path => exact at_text hk h path
  | provides path => exact at_provides hk h path
  | importers name => exact at_importersOf hk h name
  | ancestors name => exact at_ancestors hk h name
  | ancestorsOfFile path =>
    simp only [Session.call, Session.ancestorsOfFile]
    split
    · exact at_ancestors hk h _
    · exact h

end Calls

theorem pool_start {strict : Bool} {extension : String} {candidates : List String} {slots : Nat}
    (h : I.session (.new strict extension candidates)) :
    I.pool (World.start strict extension candidates slots files).pool := by
  refine ⟨h, fun fl hfl => ?_⟩
  simp [World.start] at hfl

/-- Whatever calls do, begun, at a turn or asked directly, they keep the invariant. -/
theorem pool_step {w : World} (hk : I.Kept w.files) (hp : I.pool w.pool) {a : Act}
    (ha : a.isCall) : I.pool (w.step a).pool ∧
      (w.step a).pool.session.standing = w.pool.session.standing := by
  cases a with
  | begin call => exact pool_begin hk hp call
  | turn turn place =>
    cases ht : w.pool.turn? w.files turn place with
    | none => simpa only [World.step, ht, Option.getD_none] using ⟨hp, trivial⟩
    | some p' => simpa only [World.step, ht, Option.getD_some] using pool_turn? hk hp ht
  | ask call =>
    have h := at_call hk ⟨rfl, hp.1⟩ call
    refine ⟨⟨h.session, fun fl hfl => ?_⟩, h.standing⟩
    have hf := hp.2 fl hfl
    rwa [← h.standing] at hf
  | _ => simp [Act.isCall] at ha

/-- Calls change nothing of how the session stands. -/
theorem standing_step {w : World} {a : Act} (ha : a.isCall) :
    (w.step a).pool.session.standing = w.pool.session.standing := by
  let I : Invariant := ⟨fun _ => True, fun _ _ => True, fun _ _ _ => True, fun _ _ _ _ => True⟩
  have hk : I.Kept w.files := by constructor <;> intros <;> trivial
  have hb : ∀ branch, I.branch w.pool.session.standing branch := by
    intro branch
    cases branch with
    | scanning scan => exact ⟨trivial, fun _ _ => trivial⟩
    | _ => trivial
  have hp : I.pool w.pool := ⟨trivial, fun _ _ branch _ => hb branch⟩
  exact (pool_step hk hp ha).2

end Invariant
end Ancestry
