import Ancestry.Proofs.Text.Runs
import Ancestry.Source.Script
import Mathlib.Data.List.Infix

/-!
Script blocks as they are written. The search stops at the first closing tag and starts again behind
it, so it finds the body of each block, whatever stands between the blocks as long as no opening tag
does.
-/

namespace Ancestry.Source
open Ancestry.Text

/-- A script block: the attributes of its opening tag, and what the tags enclose. -/
structure Block where
  attributes : List Char
  body : List Char

namespace Block

def written (b : Block) : List Char :=
  "<script".toList ++ (b.attributes ++ '>' :: (b.body ++ "</script>".toList))

structure Plain (b : Block) : Prop where
  attributes : '>' ∉ b.attributes
  body : ¬ "</script>".toList <:+: b.body

instance (b : Block) : Decidable b.Plain :=
  decidable_of_iff ('>' ∉ b.attributes ∧ ¬ "</script>".toList <:+: b.body)
    ⟨fun ⟨ha, hb⟩ => ⟨ha, hb⟩, fun h => ⟨h.attributes, h.body⟩⟩

variable {b : Block}

theorem written_append (b : Block) (rest : List Char) : b.written ++ rest =
    "<script".toList ++ (b.attributes ++ '>' :: (b.body ++ ("</script>".toList ++ rest))) := by
  have ht : b.written =
      "<script".toList ++ (b.attributes ++ '>' :: (b.body ++ "</script>".toList)) := rfl
  simp only [ht, List.append_assoc, List.cons_append]

theorem head?_written (b : Block) (rest : List Char) : (b.written ++ rest).head? = some '<' := by
  have ho : "<script".toList = '<' :: "script".toList := by decide
  rw [written_append, ho, List.cons_append, List.head?_cons]

theorem Plain.read (h : b.Plain) (rest : List Char) :
    scriptBlock.read (b.written ++ rest) = some (b.body, rest) := by
  -- the sign that begins the closing tag does not come again in it
  have hf : ∀ a ∈ "</script>".toList.head?, a ∉ "</script>".toList.tail := by
    intro a ha
    obtain rfl : '<' = a := Option.some.inj ha
    decide
  rw [written_append]
  simp only [scriptBlock, after?_append, bind, Option.bind_some, cut?_char h.attributes,
    cut?_append h.body hf]

end Block

theorem all_scriptBlock_gap {gap s : List Char} (hg : ¬ "<script".toList <:+: gap)
    (hs : ∀ x ∈ s.head?, x = '<') : scriptBlock.all (gap ++ s) = scriptBlock.all s := by
  apply scriptBlock.all_append_of_none
  intro place hn hp
  have ha : after? "<script".toList (place ++ s) = none := by
    refine after?_append_eq_none hn (fun hm => hg (hm.trans hp.isInfix)) fun x hx => ?_
    rw [hs x hx]
    decide
  simp only [scriptBlock, ha, bind, Option.bind_none]

/-- The script of a text that is put together from blocks and gaps without an opening tag. -/
theorem script_blocks {items : List (List Char × Block)}
    (hi : ∀ i ∈ items, ¬ "<script".toList <:+: i.1 ∧ i.2.Plain) {last : List Char}
    (hl : ¬ "<script".toList <:+: last) :
    script (items.flatMap (fun i => i.1 ++ i.2.written) ++ last) =
      items.flatMap fun i => i.2.body ++ ['\n'] := by
  have hn : scriptBlock.all last = [] := by
    have h := all_scriptBlock_gap (s := []) hl (by simp)
    rwa [List.append_nil, scriptBlock.all_nil] at h
  have ht : ∀ i ∈ items, ∀ rest, scriptBlock.all ((i.1 ++ i.2.written) ++ rest) =
      i.2.body :: scriptBlock.all rest := by
    intro i hm rest
    obtain ⟨hg, hb⟩ := hi i hm
    rw [List.append_assoc, all_scriptBlock_gap hg, scriptBlock.all_of_read (hb.read rest)]
    simp [i.2.head?_written]
  rw [script, scriptBlock.all_flatMap ht, hn, List.append_nil, List.flatMap_map]

theorem script_one {before body behind : String} (hb : ¬ "<script".toList <:+: before.toList)
    (hn : ¬ "</script>".toList <:+: body.toList) (ha : ¬ "<script".toList <:+: behind.toList) :
    script (before ++ "<script>" ++ body ++ "</script>" ++ behind).toList = body.toList ++ ['\n'] := by
  let b : Block := ⟨[], body.toList⟩
  have ht : (before ++ "<script>" ++ body ++ "</script>" ++ behind).toList =
      [(before.toList, b)].flatMap (fun i => i.1 ++ i.2.written) ++ behind.toList := by
    have ho : "<script>".toList = "<script".toList ++ ['>'] := by decide
    simp only [String.toList_append, ho, List.flatMap_singleton, List.append_assoc,
      b.written_append, b, List.nil_append, List.cons_append]
  have hp : b.Plain := ⟨by simp [b], hn⟩
  have hi : ∀ i ∈ [(before.toList, b)], ¬ "<script".toList <:+: i.1 ∧ i.2.Plain := by
    simpa using ⟨hb, hp⟩
  rw [ht, script_blocks hi ha, List.flatMap_singleton]

end Ancestry.Source
