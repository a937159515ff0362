import Ancestry.Proofs.Session.DirectCalls
import Mathlib.Data.List.Induction

/-!
No stale text is ever kept. A read may be overtaken at any of its stops by any number of changes and
drops. Marks only grow, so a read whose mark is still that of its path was not overtaken by a drop;
and if every change of the file was followed by a drop, then none came since the read took its text.
-/

namespace Ancestry
open Ancestry.Source
variable {files files' : Files} {sure sure' : String → Prop} {path : String}

/-- What is kept of the files in `sure` is what they hold now. -/
structure Contents.Current (files : Files) (sure : String → Prop) (c : Contents) : Prop where
  texts : ∀ {p text}, sure p → c.texts.get? p = some text → text = files.textOf p
  calls : ∀ {p calls}, sure p → c.calls.get? p = some calls →
    calls = provideCalls (files.textOf p)

/-- A read noted its mark in the past. If its path was not dropped since and is in `sure`, the text
that it holds is what the file holds now. -/
structure Read.Timely (files : Files) (sure : String → Prop) (d : Standing) (r : Read) :
    Prop where
  epoch_le : r.mark.epoch ≤ d.epoch
  generation_le : r.mark.generation ≤ d.generation r.path
  holds : ∀ {text? : Option String}, sure r.path → r.mark = d.markOf r.path →
    r.state = .holding text? → Contents.textRead text? = files.textOf r.path

/-- Contents are current and all reads timely. -/
def freshness (files : Files) (sure : String → Prop) : Invariant where
  session s := s.contents.Current files sure
  read := Read.Timely files sure
  scan _ _ _ := True
  cell d _ _
    | .reading r => r.Timely files sure d
    | _ => True

theorem Contents.markOf_keepText (p path : String) (mark : Mark) (text : String) (c : Contents) :
    (c.keepText path mark text).markOf p = c.markOf p := by
  unfold Contents.keepText
  split <;> rfl

namespace Contents.Current
variable {c : Contents}

theorem keepText (h : c.Current files sure) {mark : Mark} {text : String}
    (ht : sure path → c.markOf path = mark → text = files.textOf path) :
    (c.keepText path mark text).Current files sure := by
  unfold Contents.keepText
  split
  · rename_i hm
    refine ⟨fun {p t} hp hg => ?_, h.calls⟩
    rw [Table.get?_insert] at hg
    split at hg
    · rename_i he
      subst he
      cases hg
      exact ht hp hm
    · exact h.texts hp hg
  · exact h

theorem keepCalls (h : c.Current files sure) {mark : Mark} {text : String}
    (ht : sure path → c.markOf path = mark → text = files.textOf path) :
    (c.keepCalls path mark (callsIn text)).Current files sure := by
  unfold Contents.keepCalls
  split
  · rename_i hm
    refine ⟨h.texts, fun {p calls} hp hg => ?_⟩
    rw [Table.get?_insert] at hg
    split at hg
    · rename_i he
      subst he
      cases hg
      rw [callsIn_eq, ht hp hm]
    · exact h.calls hp hg
  · exact h

/-- What a read for provide calls keeps at its end: the text and its calls, or neither. -/
theorem keepBoth (h : c.Current files sure) {mark : Mark} {text : String}
    (ht : sure path → c.markOf path = mark → text = files.textOf path) :
    ((c.keepText path mark text).keepCalls path mark (callsIn text)).Current files sure := by
  refine (h.keepText ht).keepCalls fun hp hm => ?_
  rw [markOf_keepText] at hm
  exact ht hp hm

theorem invalidate (h : c.Current files sure) (hs : ∀ p, sure' p → p = path ∨ sure p) :
    (c.invalidate path).Current files sure' := by
  constructor
  · intro p text hp hg
    simp only [Contents.invalidate, Table.get?_erase] at hg
    split at hg
    · cases hg
    · rename_i hne
      exact h.texts ((hs p hp).resolve_left hne) hg
  · intro p calls hp hg
    simp only [Contents.invalidate, Table.get?_erase] at hg
    split at hg
    · cases hg
    · rename_i hne
      exact h.calls ((hs p hp).resolve_left hne) hg

theorem mono (h : c.Current files sure)
    (hs : ∀ p, sure' p → sure p ∧ files'.textOf p = files.textOf p) :
    c.Current files' sure' := by
  constructor
  · intro p text hp hg
    obtain ⟨hp, hf⟩ := hs p hp
    rw [hf]
    exact h.texts hp hg
  · intro p calls hp hg
    obtain ⟨hp, hf⟩ := hs p hp
    rw [hf]
    exact h.calls hp hg

theorem shownText_eq (h : c.Current files sure) {p : String} (hp : sure p) :
    c.shownText files p = files.textOf p := by
  cases hg : c.texts.get? p with
  | none => exact shownText_of_none hg files
  | some text =>
    rw [shownText, hg, Option.getD_some]
    exact h.texts hp hg

theorem shownCalls_eq (h : c.Current files sure) {p : String} (hp : sure p) :
    c.shownCalls files p = provideCalls (files.textOf p) := by
  cases hg : c.calls.get? p with
  | none => rw [shownCalls, hg, Option.getD_none, h.shownText_eq hp]
  | some calls =>
    rw [shownCalls, hg, Option.getD_some]
    exact h.calls hp hg

end Contents.Current

theorem Contents.Current.of_empty (files : Files) (sure : String → Prop) {c : Contents}
    (ht : c.texts = .empty) (hc : c.calls = .empty) : c.Current files sure where
  texts _ h := by simp [ht] at h
  calls _ h := by simp [hc] at h

namespace Read.Timely
variable {d : Standing} {r : Read}

theorem mono (h : r.Timely files sure d)
    (hs : ∀ p, sure' p → sure p ∧ files'.textOf p = files.textOf p) : r.Timely files' sure' d := by
  refine ⟨h.epoch_le, h.generation_le, ?_⟩
  intro text hp hm ht
  obtain ⟨hp, hf⟩ := hs r.path hp
  rw [hf]
  exact h.holds hp hm ht

/-- A drop of its path overtakes a read: no mark comes back. -/
theorem invalidate {s s' : Session} (h : r.Timely files sure s.standing)
    (hc : s'.contents = s.contents.invalidate path) (hs : ∀ p, sure' p → p = path ∨ sure p) :
    r.Timely files sure' s'.standing := by
  have hg : ∀ p, s'.standing.generation p =
      if p = path then s.standing.generation p + 1 else s.standing.generation p := by
    simp only [Session.standing, hc, Contents.invalidate, implies_true]
  have he : s'.standing.epoch = s.standing.epoch := by
    simp only [Session.standing, hc, Contents.invalidate]
  have hl := h.generation_le
  refine ⟨he ▸ h.epoch_le, ?_, ?_⟩
  · rw [hg]
    split <;> omega
  · intro text? hp hm ht
    by_cases hr : r.path = path
    · -- The mark is older than the drop, so it cannot be that of the path any more.
      have hn : r.mark.generation = s'.standing.generation r.path := congrArg Mark.generation hm
      rw [hg, if_pos hr] at hn
      omega
    · have hd : s'.standing.markOf r.path = s.standing.markOf r.path := by
        simp only [Standing.markOf, he, hg, if_neg hr]
      exact h.holds ((hs _ hp).resolve_left hr) (hm.trans hd) ht

/-- So does a drop of everything. -/
theorem clear {s s' : Session} (h : r.Timely files sure s.standing)
    (hc : s'.contents = s.contents.clear) : r.Timely files sure' s'.standing := by
  have he : s'.standing.epoch = s.standing.epoch + 1 := by
    simp only [Session.standing, hc, Contents.clear]
  have hg : s'.standing.generation = s.standing.generation := by
    simp only [Session.standing, hc, Contents.clear]
  have hl := h.epoch_le
  refine ⟨by omega, hg ▸ h.generation_le, ?_⟩
  intro text? _ hm _
  have hn : r.mark.epoch = s'.standing.epoch := congrArg Mark.epoch hm
  omega

theorem request (files : Files) (sure : String → Prop) (d : Standing) (path : String) :
    Timely files sure d ⟨path, d.markOf path, .waiting⟩ where
  epoch_le := Nat.le_refl _
  generation_le := Nat.le_refl _
  holds _ _ h := by cases h

theorem take (h : r.Timely files sure d) : (r.holding files).Timely files sure d where
  epoch_le := h.epoch_le
  generation_le := h.generation_le
  holds _ _ h := by cases h; rfl

end Read.Timely

theorem freshness_kept (files : Files) (sure : String → Prop) : (freshness files sure).Kept files where
  count _ _ h := ⟨h.texts, h.calls⟩
  request := Read.Timely.request files sure
  take h := h.take
  keepText h hr ht := h.keepText fun hp hm => hr.holds hp hm.symm ht
  keepCalls h ht := h.keepCalls fun hp _ => h.texts hp ht
  keepBoth h hr ht := h.keepBoth fun hp hm => hr.holds hp hm.symm ht
  openScan _ := trivial
  idleCell _ _ _ _ := trivial
  hitCell _ _ _ _ _ _ := trivial
  requestCell d _ _ path := Read.Timely.request files sure d path
  takeCell h := h.take
  readCell h := h
  settleCell _ _ := trivial
  settle _ h _ _ _ := h

/-- What all events of a file have in common, from a session to the next. -/
structure Session.Drops (path : String) (s t : Session) : Prop where
  extension : t.extension = s.extension
  contents : t.contents = s.contents.invalidate path
  epoch : s.importers.epoch < t.importers.epoch

theorem Session.drops_refreshFile (path : String) (s : Session) :
    s.Drops path (s.refreshFile path) := by
  unfold Session.refreshFile
  simp only
  split
  · exact ⟨rfl, rfl, Nat.lt_succ_self _⟩
  · exact ⟨rfl, rfl, Nat.lt_succ_self _⟩

theorem Session.drops_handle (kind : EventKind) (path : String) (s : Session) :
    s.Drops path (s.handle kind path) := by
  cases kind with
  | created =>
    rw [Session.handle, Session.onCreate]
    split
    · exact drops_refreshFile path s
    · have h := drops_refreshFile path { s with candidates := s.candidates ++ [path] }
      exact ⟨h.extension, h.contents, h.epoch⟩
  | changed => exact drops_refreshFile path s
  | deleted => exact ⟨rfl, rfl, Nat.lt_trans (Nat.lt_succ_self _) (Nat.lt_succ_self _)⟩

/-- Contents that are current and reads that stay timely make up the invariant again. -/
theorem freshness_of_parts {p : Pool} {s : Session} (h : (freshness files sure).pool p)
    (hs : s.contents.Current files' sure')
    (hr : ∀ r : Read, r.Timely files sure p.session.standing →
      r.Timely files' sure' s.standing) :
    (freshness files' sure').pool { p with session := s } := by
  refine Invariant.pool_of_parts h hs hr (fun _ _ _ => trivial) ?_
  intro _ _ _ cell _ hc
  cases cell with
  | reading r => exact hr r hc
  | _ => trivial

theorem Files.textOf_put {p : String} (h : p ≠ path) (text? : Option String) (files : Files) :
    (files.put path text?).textOf p = files.textOf p := by
  simp only [textOf, put, if_neg h]

/-- Each act keeps contents current and reads timely, for the files that are announced after it. -/
theorem freshness_step {w : World} (h : (freshness w.files sure).pool w.pool) (a : Act) :
    (freshness (w.step a).files (a.announces sure)).pool (w.step a).pool := by
  have hcall : a.isCall → (freshness w.files (a.announces sure)).pool (w.step a).pool := by
    intro ha
    have hk := (Invariant.pool_step (freshness_kept w.files sure) h ha).1
    have hm : ∀ p, a.announces sure p → sure p ∧ w.files.textOf p = w.files.textOf p :=
      fun p hp => ⟨(Act.announces_call sure p ha).1 hp, rfl⟩
    exact freshness_of_parts hk (hk.1.mono hm) fun r hr => hr.mono hm
  cases a with
  | begin call => exact hcall rfl
  | turn turn place => exact hcall rfl
  | ask call => exact hcall rfl
  | put path text? =>
    have hm : ∀ p, (Act.put path text?).announces sure p →
        sure p ∧ (w.files.put path text?).textOf p = w.files.textOf p := by
      intro p hp
      obtain ⟨hne, hp⟩ := (Act.announces_put sure path p text?).1 hp
      exact ⟨hp, Files.textOf_put hne text? w.files⟩
    exact freshness_of_parts h (h.1.mono hm) fun r hr => hr.mono hm
  | event kind path =>
    have hs := fun p => (Act.announces_event sure path p kind).1
    have hc := (Session.drops_handle kind path w.pool.session).contents
    exact freshness_of_parts h (hc ▸ h.1.invalidate hs) fun r hr => hr.invalidate hc hs
  | invalidate path =>
    have hs := fun p => (Act.announces_invalidate sure path p).1
    exact freshness_of_parts h (h.1.invalidate hs) fun r hr => hr.invalidate rfl hs
  | clear => exact freshness_of_parts h (.of_empty w.files _ rfl rfl) fun r hr => hr.clear rfl
  | clearContents => exact freshness_of_parts h (.of_empty w.files _ rfl rfl) fun r hr => hr.clear rfl

theorem freshness_run (w : World) (h : (freshness w.files (Announced · [])).pool w.pool)
    (acts : List Act) : (freshness (w.run acts).files (Announced · acts)).pool (w.run acts).pool := by
  induction acts using List.reverseRecOn with
  | nil => exact h
  | append_singleton acts a ih =>
    rw [World.run_concat, announced_concat_eq]
    exact freshness_step ih a

theorem current_run (strict : Bool) (extension : String) (candidates : List String) (slots : Nat)
    (files : Files) (acts : List Act) :
    let w := (World.start strict extension candidates slots files).run acts
    w.pool.session.contents.Current w.files (Announced · acts) := by
  have hs : (freshness files (Announced · [])).pool
      (World.start strict extension candidates slots files).pool :=
    Invariant.pool_start (.of_empty files _ rfl rfl)
  exact (freshness_run _ hs acts).1

/-- In every reachable state, with calls in flight or not, what is kept of a file whose changes were
all followed by an event or a drop is what the file holds: its text, and the provide calls of that
text. -/
theorem kept_eq_current (strict : Bool) (extension : String) (candidates : List String)
    (slots : Nat) (files : Files) (acts : List Act) (path : String) (h : Announced path acts) :
    let w := (World.start strict extension candidates slots files).run acts
    (∀ text, w.pool.session.contents.texts.get? path = some text →
      text = w.files.textOf path) ∧
    ∀ calls, w.pool.session.contents.calls.get? path = some calls →
      calls = provideCalls (w.files.textOf path) := by
  have hs : (freshness files (Announced · [])).pool
      (World.start strict extension candidates slots files).pool :=
    Invariant.pool_start (.of_empty files _ rfl rfl)
  have hi := (freshness_run (.start strict extension candidates slots files) hs acts).1
  exact ⟨fun _ ht => hi.texts h ht, fun _ hc => hi.calls h hc⟩

/-- A read that is overtaken by a change and a drop, and a later one that is not. -/
def overtakenRead : List Act :=
  [.begin (.text "/a"), .turn .take ⟨0, 0, none⟩, .put "/a" (some "provide(x, 1)"),
    .invalidate "/a", .turn .complete ⟨0, 0, none⟩, .begin (.provides "/a"),
    .turn .take ⟨1, 0, none⟩, .turn .complete ⟨1, 0, none⟩]

theorem kept_eq_current_overtaken :
    let w := (World.start false ".vue" ["/a"] 2 fun _ => some "old").run overtakenRead
    Announced "/a" overtakenRead ∧
      w.pool.session.contents.texts.get? "/a" = some "provide(x, 1)" ∧
      "provide(x, 1)" = w.files.textOf "/a" :=
  ⟨by decide, by decide,
    (kept_eq_current false ".vue" ["/a"] 2 _ overtakenRead "/a" (by decide)).1 _ (by decide)⟩

end Ancestry
