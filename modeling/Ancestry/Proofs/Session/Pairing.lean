import Ancestry.Proofs.Session.Counters
import Ancestry.Proofs.Session.Freshness

/-!
Kept calls stand beside a kept text. A read for calls keeps both or neither, since it noted one mark
for both, and every drop takes both away. While no call is in flight the calls are moreover those of
that text, however often the file was changed in silence; a read in flight could put another text in
its place.
-/

namespace Ancestry
open Ancestry.Source
variable {files : Files} {R : String → List String → Prop} {c : Contents} {s : Session}

/-- Whatever calls are kept, the text of their path is kept too and stands in the relation `R` to
them. -/
def Contents.Paired (R : String → List String → Prop) (c : Contents) : Prop :=
  ∀ path calls, c.calls.get? path = some calls → ∃ text, c.texts.get? path = some text ∧ R text calls

/-- Whatever text is asked for is kept afterwards. -/
theorem Contents.get?_texts_text (files : Files) (path : String) (c : Contents) :
    (c.text files path).2.texts.get? path = some (c.shownText files path) := by
  cases ht : c.texts.get? path with
  | some text =>
    rw [text_of_some ht, shownText, ht, Option.getD_some]
    exact ht
  | none =>
    obtain ⟨stats, hx⟩ := text_of_none files ht
    rw [hx, shownText_of_none ht, Table.get?_insert_self]

namespace Contents.Paired

theorem of_empty (hc : c.calls = .empty) : c.Paired R := by
  intro path calls hg
  simp [hc] at hg

theorem invalidate (h : c.Paired R) (path : String) : (c.invalidate path).Paired R := by
  intro p calls hg
  simp only [Contents.invalidate, Table.get?_erase] at hg ⊢
  split at hg
  · cases hg
  · rename_i hne
    rw [if_neg hne]
    exact h p calls hg

/-- A text may come in where it disturbs no calls. -/
theorem insertText (h : c.Paired R) {path text : String} (stats : Statistics)
    (ht : ∀ calls, c.calls.get? path = some calls → R text calls) :
    Paired R { c with texts := c.texts.insert path text, stats } := by
  intro p calls hg
  simp only [Table.get?_insert]
  split
  · rename_i hp
    subst hp
    exact ⟨text, rfl, ht calls hg⟩
  · exact h p calls hg

theorem insertCalls (h : c.Paired R) {path text : String} {calls : List String}
    (ht : c.texts.get? path = some text) (hr : R text calls) :
    Paired R { c with calls := c.calls.insert path calls } := by
  intro p kept hg
  simp only [Table.get?_insert] at hg
  split at hg
  · rename_i hp
    subst hp
    cases hg
    exact ⟨text, ht, hr⟩
  · exact h p kept hg

theorem keepText (h : c.Paired R) {path text : String} (mark : Mark)
    (ht : ∀ calls, c.calls.get? path = some calls → R text calls) :
    (c.keepText path mark text).Paired R := by
  unfold Contents.keepText
  split
  · exact h.insertText c.stats ht
  · exact h

theorem keepCalls (h : c.Paired fun _ _ => True) {path text : String} (mark : Mark)
    {calls : List String} (ht : c.texts.get? path = some text) :
    (c.keepCalls path mark calls).Paired fun _ _ => True := by
  unfold Contents.keepCalls
  split
  · exact h.insertCalls ht trivial
  · exact h

/-- The end of a read for calls: the mark that lets the calls in has let in the text before. -/
theorem keepBoth (h : c.Paired fun _ _ => True) (path text : String) (mark : Mark)
    (calls : List String) :
    ((c.keepText path mark text).keepCalls path mark calls).Paired fun _ _ => True := by
  by_cases hm : c.markOf path = mark
  · have ht : (c.keepText path mark text).texts.get? path = some text := by
      simp [Contents.keepText, hm]
    exact (h.keepText mark fun _ _ => trivial).keepCalls mark ht
  · simpa only [Contents.keepText, Contents.keepCalls, if_neg hm] using h

/-- A text that is read was not kept, so that no calls were. -/
theorem text (h : c.Paired R) (files : Files) (path : String) : (c.text files path).2.Paired R := by
  cases ht : c.texts.get? path with
  | some text =>
    rw [text_of_some ht]
    exact h
  | none =>
    obtain ⟨stats, hx⟩ := text_of_none files ht
    rw [hx]
    refine h.insertText stats fun calls hc => ?_
    obtain ⟨text, hk, -⟩ := h path calls hc
    simp [ht] at hk

theorem provides (h : c.Paired R) (hR : ∀ text, R text (provideCalls text)) (files : Files)
    (path : String) : (c.provides files path).2.Paired R := by
  cases hc : c.calls.get? path with
  | some calls =>
    rw [provides_of_some hc]
    exact h
  | none =>
    have hn : (c.countCallsMiss.text files path).2.Paired R :=
      text (c := c.countCallsMiss) h files path
    have hcalls : (c.countCallsMiss.text files path).2.calls = c.calls :=
      text_calls files path c.countCallsMiss
    rw [provides_of_none hc, ← hcalls]
    exact hn.insertCalls (get?_texts_text files path c.countCallsMiss) (hR _)

theorem importersAmong (h : c.Paired R) (files : Files) (name : String) (paths : List String) :
    (Session.importersAmong files name paths c).2.Paired R := by
  induction paths generalizing c with
  | nil => exact h
  | cons path paths ih => exact ih (h.text files path)

end Contents.Paired

namespace Session

theorem paired_importersOf (h : s.contents.Paired R) (files : Files) (name : String) :
    (s.importersOf files name).2.contents.Paired R := by
  cases hl : s.importers.lists.get? name with
  | some found =>
    rw [importersOf_of_some hl]
    exact h
  | none =>
    rw [importersOf_of_none hl]
    exact h.importersAmong files name s.candidates

theorem paired_ancestors (h : s.contents.Paired R) (hR : ∀ text, R text (provideCalls text))
    (files : Files) (name : String) : (s.ancestors files name).2.contents.Paired R := by
  have visit {path : String} {t : Session} (ht : t.contents.Paired R) :
      ((t.provides files path).2.importersOf files (componentName path)).2.contents.Paired R :=
    paired_importersOf (ht.provides hR files path) files _
  obtain ⟨_, ha⟩ := visitAll_keeps (motive := fun _ _ _ t => t.contents.Paired R)
    (fun _ ht => ht) (fun _ ht => visit ht) (s.within_known.importersOf files name).2
    (s.within_known.importersOf files name).1 (paired_importersOf h files name)
  exact ha

/-- A call that is answered at once keeps calls of the texts that it keeps. -/
theorem paired_call (h : s.contents.Paired R) (hR : ∀ text, R text (provideCalls text))
    (files : Files) (call : Call) : (s.call files call).2.contents.Paired R := by
  cases call with
  | text path => exact h.text files path
  | provides path => exact h.provides hR files path
  | importers name => exact paired_importersOf h files name
  | ancestors name => exact paired_ancestors h hR files name
  | ancestorsOfFile path =>
    simp only [call, ancestorsOfFile]
    split
    · exact paired_ancestors h hR files _
    · exact h

end Session

/-! Calls in flight keep a text beside all calls, whichever text it is. -/

def pairing : Invariant where
  session s := s.contents.Paired fun _ _ => True
  read _ _ := True
  scan _ _ _ := True
  cell _ _ _ _ := True

theorem pairing_kept (files : Files) : pairing.Kept files where
  count _ _ h := h
  request _ _ := trivial
  take _ := trivial
  keepText h _ _ := h.keepText _ fun _ _ => trivial
  keepCalls h ht := h.keepCalls _ ht
  keepBoth h _ _ := h.keepBoth _ _ _ _
  openScan _ := trivial
  idleCell _ _ _ _ := trivial
  hitCell _ _ _ _ _ _ := trivial
  requestCell _ _ _ _ := trivial
  takeCell _ := trivial
  readCell _ := trivial
  settleCell _ _ := trivial
  settle _ h _ _ _ := h

/-- The invariant says nothing of the calls in flight themselves. -/
theorem pairing_pool {p : Pool} (h : p.session.contents.Paired fun _ _ => True) :
    pairing.pool p := by
  refine ⟨h, fun fl _ branch _ => ?_⟩
  cases branch with
  | scanning scan => exact ⟨trivial, fun _ _ => trivial⟩
  | _ => trivial

namespace Move

/-- Whether a call begins, moves on or is answered. -/
def isCall : Move → Bool
  | act a => a.isCall
  | _ => false

/-- Whether no call is left in flight. -/
def isDirect : Move → Bool
  | act (.begin _) | act (.turn _ _) => false
  | _ => true

end Move

namespace World

/-- Beside calls, whatever happens leaves the contents alone or drops a path or everything. -/
theorem contents_move (w : World) {m : Move} (hm : m.isCall = false) :
    (w.move m).pool.session.contents = w.pool.session.contents ∨
      (∃ path, (w.move m).pool.session.contents = w.pool.session.contents.invalidate path) ∨
      (w.move m).pool.session.contents = w.pool.session.contents.clear := by
  cases m with
  | act a =>
    cases a with
    | event kind path =>
      exact .inr (.inl ⟨path, (Session.drops_handle kind path w.pool.session).contents⟩)
    | invalidate path => exact .inr (.inl ⟨path, rfl⟩)
    | clear => exact .inr (.inr rfl)
    | clearContents => exact .inr (.inr rfl)
    | put path text? => exact .inl rfl
    | _ => simp [Move.isCall, Act.isCall] at hm
  | _ => exact .inl rfl

theorem paired_drop {w : World} (h : w.pool.session.contents.Paired R) {m : Move}
    (hm : m.isCall = false) : (w.move m).pool.session.contents.Paired R := by
  obtain hc | ⟨path, hc⟩ | hc := w.contents_move hm <;> rw [hc]
  · exact h
  · exact h.invalidate path
  · exact .of_empty rfl

theorem paired_move {w : World} (h : w.pool.session.contents.Paired fun _ _ => True) (m : Move) :
    (w.move m).pool.session.contents.Paired fun _ _ => True := by
  cases hm : m.isCall with
  | false => exact paired_drop h hm
  | true =>
    cases m with
    | act a => exact (Invariant.pool_step (pairing_kept w.files) (pairing_pool h) hm).1.1
    | _ => cases hm

theorem paired_moves {w : World} (h : w.pool.session.contents.Paired fun _ _ => True)
    (ms : List Move) : (w.moves ms).pool.session.contents.Paired fun _ _ => True := by
  induction ms generalizing w with
  | nil => exact h
  | cons m ms ih => exact ih (paired_move h m)

/-- A direct call keeps more than that: the calls of the very text that is kept. -/
theorem paired_directMove {w : World} (h : w.pool.session.contents.Paired R)
    (hR : ∀ text, R text (provideCalls text)) {m : Move} (hm : m.isDirect) :
    (w.move m).pool.session.contents.Paired R := by
  cases hc : m.isCall with
  | false => exact paired_drop h hc
  | true =>
    cases m with
    | act a =>
      cases a with
      | ask call => exact Session.paired_call h hR w.files call
      | begin call => cases hm
      | turn turn place => cases hm
      | _ => cases hc
    | _ => cases hc

theorem paired_directMoves {w : World} (h : w.pool.session.contents.Paired R)
    (hR : ∀ text, R text (provideCalls text)) {ms : List Move} (hm : ∀ m ∈ ms, m.isDirect) :
    (w.moves ms).pool.session.contents.Paired R := by
  induction ms generalizing w with
  | nil => exact h
  | cons m ms ih =>
    obtain ⟨hd, hm⟩ := List.forall_mem_cons.1 hm
    exact ih (paired_directMove h hR hd) hm

end World

/-- Calls that are shown are those of the text that is shown. -/
theorem Contents.Paired.shownCalls_eq (h : c.Paired fun text calls => calls = provideCalls text)
    (files : Files) (path : String) :
    c.shownCalls files path = provideCalls (c.shownText files path) := by
  cases hc : c.calls.get? path with
  | none => rw [shownCalls, hc, Option.getD_none]
  | some calls =>
    obtain ⟨text, ht, rfl⟩ := h path calls hc
    rw [shownCalls, hc, Option.getD_some, shownText, ht, Option.getD_some]

/-- In every reachable state, with calls in flight or not, a path whose calls are kept has its text
kept as well. Where every call was answered before anything else happened, the calls are those of
that text, whatever was written to the file meanwhile, and whoever asks for the calls of a path gets
those of the text that he would get. Leaving out texts without the word `provide` changes
nothing of it. -/
theorem kept_calls_of_kept_text (strict : Bool) (extension : String) (candidates : List String)
    (slots : Nat) (files : Files) (ms : List Move) :
    let w := (World.start strict extension candidates slots files).moves ms
    let c := w.pool.session.contents
    (∀ path, c.calls.contains path → c.texts.contains path) ∧
      ((∀ m ∈ ms, m.isDirect) → ∀ path,
        (∀ calls, c.calls.get? path = some calls →
          ∃ text, c.texts.get? path = some text ∧ calls = provideCalls text) ∧
        (c.provides w.files path).1 = provideCalls (c.text w.files path).1) ∧
      ∀ text, Contents.callsIn text = provideCalls text := by
  intro w c
  have hstart : ∀ R, (World.start strict extension candidates slots
      files).pool.session.contents.Paired R := fun R => .of_empty rfl
  refine ⟨fun path hc => ?_, fun hm path => ?_, Contents.callsIn_eq⟩
  · obtain ⟨calls, hg⟩ := Option.isSome_iff_exists.1 hc
    obtain ⟨text, ht, -⟩ := World.paired_moves (hstart _) ms path calls hg
    exact Option.isSome_iff_exists.2 ⟨text, ht⟩
  · have h : c.Paired fun text calls => calls = provideCalls text :=
      World.paired_directMoves (R := fun text calls => calls = provideCalls text) (hstart _)
        (fun _ => rfl) hm
    refine ⟨h path, ?_⟩
    rw [Contents.provides_fst, Contents.text_fst, h.shownCalls_eq]

/-- A file that is rewritten in silence between two questions for its calls. -/
def silentChange : List Move :=
  [.act (.ask (.provides "/a")), .act (.put "/a" (some "gone")), .act (.ask (.importers "A")),
    .act (.ask (.provides "/a"))]

theorem kept_calls_of_kept_text_silent :
    let w := (World.start false ".vue" ["/a"] 1 fun _ => some "provide(x, 1)").moves silentChange
    let c := w.pool.session.contents
    (∀ m ∈ silentChange, m.isDirect) ∧ w.files "/a" = some "gone" ∧
      c.calls.get? "/a" = some ["provide(x, 1)"] ∧
      (∃ text, c.texts.get? "/a" = some text ∧ ["provide(x, 1)"] = provideCalls text) ∧
      (c.provides w.files "/a").1 = provideCalls (c.text w.files "/a").1 := by
  intro w c
  have hm : ∀ m ∈ silentChange, m.isDirect := by decide
  have hc : c.calls.get? "/a" = some ["provide(x, 1)"] := by decide +kernel
  obtain ⟨hk, ha⟩ := (kept_calls_of_kept_text false ".vue" ["/a"] 1 (fun _ => some "provide(x, 1)")
    silentChange).2.1 hm "/a"
  exact ⟨hm, rfl, hc, hk _ hc, ha⟩

-- A read in flight puts the text of its own time beside the calls of a later one.
example :
    let c := ((World.start false ".vue" [] 2 fun _ => some "old").moves
      [.act (.begin (.text "/a")), .act (.turn .take ⟨0, 0, none⟩),
        .act (.put "/a" (some "provide(x, 1)")), .act (.ask (.provides "/a")),
        .act (.turn .complete ⟨0, 0, none⟩)]).pool.session.contents
    c.texts.get? "/a" = some "old" ∧ c.calls.get? "/a" = some ["provide(x, 1)"] := by
  decide +kernel

end Ancestry
