import Ancestry.Proofs.Source.Calls
import Ancestry.Session.Call

/-!
What a session shows: of a path or a component that is kept, what is kept, and of the others what the
files hold. A call answers with what is shown and keeps nothing else, so that it never changes what
the session shows.
-/

namespace Ancestry
open Ancestry.Source

/-- What a file holds. One that cannot be read holds nothing. -/
def Files.textOf (files : Files) (path : String) : String :=
  (files path).getD ""

namespace Contents

def shownText (files : Files) (c : Contents) (path : String) : String :=
  (c.texts.get? path).getD (files.textOf path)

def shownCalls (files : Files) (c : Contents) (path : String) : List String :=
  (c.calls.get? path).getD (provideCalls (c.shownText files path))

/-- Both show the same of every path. -/
structure Alike (files : Files) (c d : Contents) : Prop where
  texts : ∀ p, d.shownText files p = c.shownText files p
  calls : ∀ p, d.shownCalls files p = c.shownCalls files p

theorem Alike.trans {files : Files} {c d e : Contents} (h : c.Alike files d)
    (h' : d.Alike files e) : c.Alike files e where
  texts p := (h'.texts p).trans (h.texts p)
  calls p := (h'.calls p).trans (h.calls p)

theorem Alike.symm {files : Files} {c d : Contents} (h : c.Alike files d) : d.Alike files c where
  texts p := (h.texts p).symm
  calls p := (h.calls p).symm

theorem alike_stats (files : Files) (c : Contents) (stats : Statistics) :
    c.Alike files { c with stats } :=
  ⟨fun _ => rfl, fun _ => rfl⟩

theorem shownText_of_none {c : Contents} {path : String} (h : c.texts.get? path = none)
    (files : Files) : c.shownText files path = files.textOf path := by
  rw [shownText, h, Option.getD_none]

/-- Keeping the text of a file that was not kept changes nothing of what is shown. -/
theorem alike_insertText (files : Files) {c : Contents} {path : String}
    (h : c.texts.get? path = none) (stats : Statistics) :
    c.Alike files { c with texts := c.texts.insert path (files.textOf path), stats } := by
  have ht : ∀ p, shownText files { c with texts := c.texts.insert path (files.textOf path), stats } p
      = c.shownText files p := by
    intro p
    rw [shownText, Table.get?_insert]
    split
    · rename_i hp
      rw [hp, shownText_of_none h, Option.getD_some]
    · rfl
  exact ⟨ht, fun p => by simp only [shownCalls, ht]⟩

/-- The same of the calls. -/
theorem alike_insertCalls (files : Files) {c : Contents} {path : String}
    (h : c.calls.get? path = none) :
    c.Alike files
      { c with calls := c.calls.insert path (provideCalls (c.shownText files path)) } := by
  refine ⟨fun _ => rfl, fun p => ?_⟩
  simp only [shownCalls, Table.get?_insert]
  split
  · rename_i hp
    rw [hp, h, Option.getD_some, Option.getD_none]
  · rfl

/-- The end of a read moves nothing but the counters. -/
theorem countEnd_eq (text? : Option String) (c : Contents) :
    ∃ stats, c.countEnd text? = { c with stats } := by
  cases text? with
  | some text => exact ⟨c.stats, rfl⟩
  | none => exact ⟨_, rfl⟩

theorem text_of_some {files : Files} {path text : String} {c : Contents}
    (h : c.texts.get? path = some text) : c.text files path = (text, c.countTextHit) := by
  rw [Contents.text, h]

theorem text_of_none (files : Files) {path : String} {c : Contents}
    (h : c.texts.get? path = none) :
    ∃ stats, c.text files path =
      (files.textOf path, { c with texts := c.texts.insert path (files.textOf path), stats }) := by
  obtain ⟨stats, hs⟩ := countEnd_eq (files path) (c.request path).2.countRead
  refine ⟨stats, ?_⟩
  rw [Contents.text, h]
  simp only [hs]
  simp only [request, countRead, keepText, markOf, if_true]
  rfl

theorem text_fst (files : Files) (path : String) (c : Contents) :
    (c.text files path).1 = c.shownText files path := by
  cases h : c.texts.get? path with
  | some text => rw [text_of_some h, shownText, h, Option.getD_some]
  | none =>
    obtain ⟨stats, hs⟩ := text_of_none files h
    rw [hs, shownText_of_none h]

theorem alike_text (files : Files) (path : String) (c : Contents) :
    c.Alike files (c.text files path).2 := by
  cases h : c.texts.get? path with
  | some text =>
    rw [text_of_some h]
    exact alike_stats files c _
  | none =>
    obtain ⟨stats, hs⟩ := text_of_none files h
    rw [hs]
    exact alike_insertText files h stats

theorem text_calls (files : Files) (path : String) (c : Contents) :
    (c.text files path).2.calls = c.calls := by
  cases h : c.texts.get? path with
  | some text => rw [text_of_some h]; rfl
  | none =>
    obtain ⟨stats, hs⟩ := text_of_none files h
    rw [hs]

theorem text_markOf (files : Files) (path p : String) (c : Contents) :
    (c.text files path).2.markOf p = c.markOf p := by
  cases h : c.texts.get? path with
  | some text => rw [text_of_some h]; rfl
  | none =>
    obtain ⟨stats, hs⟩ := text_of_none files h
    rw [hs]
    rfl

theorem provides_of_some {files : Files} {path : String} {calls : List String} {c : Contents}
    (h : c.calls.get? path = some calls) : c.provides files path = (calls, c.countCallsHit) := by
  rw [provides, h]

/-- Calls that are not kept are those of the text that is shown. -/
theorem provides_of_none {files : Files} {path : String} {c : Contents}
    (h : c.calls.get? path = none) :
    c.provides files path = (provideCalls (c.shownText files path),
      { (c.countCallsMiss.text files path).2 with
        calls := c.calls.insert path (provideCalls (c.shownText files path)) }) := by
  have ht : (c.countCallsMiss.text files path).1 = c.shownText files path :=
    text_fst files path c.countCallsMiss
  have hm : (c.countCallsMiss.text files path).2.markOf path = c.markOf path :=
    text_markOf files path path c.countCallsMiss
  have hc : (c.countCallsMiss.text files path).2.calls = c.calls :=
    text_calls files path c.countCallsMiss
  rw [provides, h]
  simp only [ht, callsIn_eq, keepCalls, hm, if_true, hc]

theorem provides_fst (files : Files) (path : String) (c : Contents) :
    (c.provides files path).1 = c.shownCalls files path := by
  cases h : c.calls.get? path with
  | some calls => rw [provides_of_some h, shownCalls, h, Option.getD_some]
  | none => rw [provides_of_none h, shownCalls, h, Option.getD_none]

theorem alike_provides (files : Files) (path : String) (c : Contents) :
    c.Alike files (c.provides files path).2 := by
  cases h : c.calls.get? path with
  | some calls =>
    rw [provides_of_some h]
    exact alike_stats files c _
  | none =>
    have hm : c.Alike files c.countCallsMiss := alike_stats files c _
    have ht := hm.trans (alike_text files path c.countCallsMiss)
    have hc : (c.countCallsMiss.text files path).2.calls = c.calls :=
      text_calls files path c.countCallsMiss
    have hn : (c.countCallsMiss.text files path).2.calls.get? path = none := by rw [hc, h]
    have hi := alike_insertCalls files hn
    rw [provides_of_none h]
    rw [ht.texts, hc] at hi
    exact ht.trans hi

end Contents

namespace Session

def shownImporters (files : Files) (s : Session) (name : String) : List String :=
  (s.importers.lists.get? name).getD
    (s.candidates.filter fun p => importsName (s.contents.shownText files p) name)

/-- Both show the same of every path and every component, and take the same files for components. -/
structure Alike (files : Files) (s t : Session) : Prop where
  extension : t.extension = s.extension
  contents : s.contents.Alike files t.contents
  importers : ∀ name, t.shownImporters files name = s.shownImporters files name

theorem Alike.trans {files : Files} {s t u : Session} (h : s.Alike files t)
    (h' : t.Alike files u) : s.Alike files u where
  extension := h'.extension.trans h.extension
  contents := h.contents.trans h'.contents
  importers name := (h'.importers name).trans (h.importers name)

theorem Alike.symm {files : Files} {s t : Session} (h : s.Alike files t) : t.Alike files s where
  extension := h.extension.symm
  contents := h.contents.symm
  importers name := (h.importers name).symm

/-- Other contents that show the same leave the importers as they are shown. -/
theorem alike_contents {files : Files} {s : Session} {c : Contents}
    (h : s.contents.Alike files c) : s.Alike files { s with contents := c } := by
  refine ⟨rfl, h, fun name => ?_⟩
  simp only [shownImporters, h.texts]

theorem importersAmong_fst (files : Files) (name : String) (paths : List String) (c : Contents) :
    (importersAmong files name paths c).1 =
      paths.filter fun p => importsName (c.shownText files p) name := by
  induction paths generalizing c with
  | nil => rfl
  | cons path paths ih =>
    have ht := (Contents.alike_text files path c).texts
    simp only [importersAmong, ih, ht, Contents.text_fst, List.filter_cons]

theorem alike_importersAmong (files : Files) (name : String) (paths : List String)
    (c : Contents) : c.Alike files (importersAmong files name paths c).2 := by
  induction paths generalizing c with
  | nil => exact ⟨fun _ => rfl, fun _ => rfl⟩
  | cons path paths ih => exact (Contents.alike_text files path c).trans (ih _)

theorem importersOf_of_some {files : Files} {name : String} {found : List String} {s : Session}
    (h : s.importers.lists.get? name = some found) :
    s.importersOf files name = (found, { s with importers := s.importers.countHit }) := by
  rw [importersOf, h]

theorem importersOf_of_none {files : Files} {name : String} {s : Session}
    (h : s.importers.lists.get? name = none) :
    s.importersOf files name = (s.shownImporters files name,
      { s with
        contents := (importersAmong files name s.candidates s.contents).2
        importers := { s.importers.countMiss with
          lists := s.importers.lists.insert name (s.shownImporters files name) } }) := by
  have hf := importersAmong_fst files name s.candidates s.contents
  rw [importersOf, shownImporters, h, Option.getD_none, ← hf]
  simp only [Importers.settle, if_true]
  rfl

theorem importersOf_fst (files : Files) (name : String) (s : Session) :
    (s.importersOf files name).1 = s.shownImporters files name := by
  cases h : s.importers.lists.get? name with
  | some found => rw [importersOf_of_some h, shownImporters, h, Option.getD_some]
  | none => rw [importersOf_of_none h]

theorem alike_importersOf (files : Files) (name : String) (s : Session) :
    s.Alike files (s.importersOf files name).2 := by
  cases h : s.importers.lists.get? name with
  | some found =>
    rw [importersOf_of_some h]
    exact ⟨rfl, ⟨fun _ => rfl, fun _ => rfl⟩, fun _ => rfl⟩
  | none =>
    have hc := alike_importersAmong files name s.candidates s.contents
    rw [importersOf_of_none h]
    refine ⟨rfl, hc, fun n => ?_⟩
    simp only [shownImporters, Table.get?_insert, hc.texts]
    split
    · rename_i hn
      rw [hn, h, Option.getD_some]
    · rfl

theorem alike_provides (files : Files) (path : String) (s : Session) :
    s.Alike files (s.provides files path).2 :=
  alike_contents (Contents.alike_provides files path s.contents)

end Session
end Ancestry
