import Ancestry.Text.Recogniser

/-!
Script blocks of a component. A block begins with an opening tag of any attributes and ends at the
first closing tag behind it.
-/

namespace Ancestry.Source
open Ancestry.Text

/-- Reads one script block and yields its body. -/
def scriptBlock : Recogniser (List Char) where
  read s := do
    let tag ← after? "<script".toList s
    let (_, inside) ← cut? ['>'] tag
    cut? "</script>".toList inside
  shrinks := by
    intro s body rest h
    simp only [bind, Option.bind_eq_some_iff, Prod.exists] at h
    obtain ⟨tag, h₁, attributes, inside, h₂, h₃⟩ := h
    have := length_of_after? h₁
    have := length_of_cut? h₂
    have := length_of_cut? h₃
    simp at *
    omega

/-- The bodies of all script blocks, each ended by a line break. -/
def script (s : List Char) : List Char :=
  (scriptBlock.all s).flatMap (· ++ ['\n'])

end Ancestry.Source
