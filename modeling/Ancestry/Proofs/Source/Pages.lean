import Ancestry.Proofs.Source.ScriptBlocks
import Ancestry.Source.Import

/-!
Pages: components as they are written, script blocks with other text around them. The names that a page
imports depend on the bodies of its blocks alone. Neither the attributes of a tag nor a template or
style sheet between the blocks has a say, not even where it ends in part of a tag.
-/

namespace Ancestry.Source
open Ancestry.Text

/-- A page: its script blocks, each with the text before it, and the text behind the last one. -/
structure Page where
  blocks : List (List Char × Block)
  last : List Char

namespace Page

def written (p : Page) : List Char :=
  p.blocks.flatMap (fun i => i.1 ++ i.2.written) ++ p.last

def text (p : Page) : String :=
  String.ofList p.written

def bodies (p : Page) : List (List Char) :=
  p.blocks.map fun i => i.2.body

/-- The tags of each block enclose its body, and no block begins in the text around the blocks. -/
structure Plain (p : Page) : Prop where
  blocks : ∀ i ∈ p.blocks, ¬ "<script".toList <:+: i.1 ∧ i.2.Plain
  last : ¬ "<script".toList <:+: p.last

instance (p : Page) : Decidable p.Plain :=
  decidable_of_iff
    ((∀ i ∈ p.blocks, ¬ "<script".toList <:+: i.1 ∧ i.2.Plain) ∧ ¬ "<script".toList <:+: p.last)
    ⟨fun ⟨hb, hl⟩ => ⟨hb, hl⟩, fun h => ⟨h.blocks, h.last⟩⟩

variable {p : Page}

theorem Plain.script_written (h : p.Plain) :
    script p.written = p.bodies.flatMap (· ++ ['\n']) := by
  rw [written, script_blocks h.blocks h.last, bodies, List.flatMap_map]

theorem Plain.importedNames_text (h : p.Plain) :
    importedNames p.text =
      (importStatement.all (p.bodies.flatMap (· ++ ['\n']))).flatten.map String.ofList := by
  rw [importedNames, text, String.toList_ofList, h.script_written]

/-- The script of a page is made up of the bodies of its blocks, each ended by a line feed; and
whatever two pages with the same bodies have around them, they import the same names. -/
theorem imports_by_bodies (p : Page) (h : p.Plain) :
    script p.written = p.bodies.flatMap (· ++ ['\n']) ∧
      ∀ q : Page, q.Plain → q.bodies = p.bodies →
        ∀ name, importsName q.text name = importsName p.text name := by
  refine ⟨h.script_written, fun q hq hb name => ?_⟩
  rw [importsName, importsName, hq.importedNames_text, h.importedNames_text, hb]

/-- Two blocks whose bodies end in part of a closing tag, among texts that look like scripts and
tags. -/
def crowded : Page where
  blocks :=
    [("<scrip".toList, ⟨" setup lang='ts' <script".toList, "import A from './a'</script".toList⟩),
      ("<p>import X from 'x'</p></script>".toList, ⟨[], "\n</scr".toList⟩)]
  last := "</style><".toList

theorem imports_by_bodies_crowded :
    let bare : Page := ⟨crowded.bodies.map fun body => ([], ⟨[], body⟩), []⟩
    crowded.Plain ∧ bare.Plain ∧ bare.bodies = crowded.bodies ∧
      script crowded.written = "import A from './a'</script\n\n</scr\n".toList ∧
      importsName bare.text "A" ∧ importsName crowded.text "A" ∧ ¬ importsName crowded.text "X" := by
  intro bare
  have hc : crowded.Plain := by decide +kernel
  have hb : bare.Plain := by decide +kernel
  have hs := (imports_by_bodies crowded hc).1
  have hi := (imports_by_bodies crowded hc).2 bare hb rfl
  have ha : importsName bare.text "A" := by decide +kernel
  have hx : ¬ importsName bare.text "X" := by decide +kernel
  rw [hi] at hx
  exact ⟨hc, hb, rfl, hs.trans (by decide), ha, hi "A" ▸ ha, hx⟩

end Page
end Ancestry.Source
