import Ancestry.Ignore
import Ancestry.Proofs.Path.Components

/-!
How the rules see a path. They look at its name and at what it is called from the root, so that a
path from the root and the same path written in full get the same answer.
-/

namespace Ancestry.IgnoreRules
open Ancestry.Path
variable {rules : IgnoreRules} {path other : Path} {parts : List String}

theorem seen_below (rules : IgnoreRules) (parts : List String) :
    rules.seen ⟨rules.root.anchor, rules.root.parts ++ parts⟩ = ⟨.relative, parts⟩ := by
  have hb : rules.root.below? ⟨rules.root.anchor, rules.root.parts ++ parts⟩ = some parts := by
    simp [below?, List.isPrefixOf?_eq_some_iff_append_eq]
  simp only [seen, hb]

theorem seen_of_relative (ha : rules.root.isAbsolute) (hp : path.anchor = .relative) :
    rules.seen path = path := by
  have hn : path.anchor ≠ rules.root.anchor := by
    rw [hp]
    exact Ne.symm (by simpa [isAbsolute] using ha)
  simp only [seen, below?, if_neg hn]

/-- Nothing else of a path is looked at. -/
theorem ignores_congr (hs : rules.seen path = rules.seen other) (hn : path.name = other.name) :
    rules.ignores path = rules.ignores other := by
  have hl : matchesListed path = matchesListed other := by
    funext seen pattern
    simp only [matchesListed, hn]
  have hc : matchesConfigured path = matchesConfigured other := by
    funext seen pattern
    simp only [matchesConfigured, hn]
  simp only [ignores, hs, hl, hc]

/-- A path that is given from the root gets the same decision as when the root is written in front of
it. It may go up by double dots and have slashes and single dots to spare. -/
theorem ignores_written_in_full (rules : IgnoreRules) (absolute : rules.root.isAbsolute)
    (proper : ∀ part ∈ rules.root.parts, IsPart part) (inner : rules.root.parts ≠ []) {r : String}
    (relative : (ofString r).anchor = .relative) (named : (ofString r).parts ≠ []) :
    rules.ignores (ofString r) = rules.ignores (ofString (rules.root.toString ++ "/" ++ r)) := by
  have hroot : ofString rules.root.toString = rules.root := ofString_toString proper
  have hfull : ofString (rules.root.toString ++ "/" ++ r) =
      ⟨rules.root.anchor, rules.root.parts ++ (ofString r).parts⟩ := by
    rw [ofString_append (by rwa [hroot]), hroot]
  have hr : ofString r = ⟨.relative, (ofString r).parts⟩ := by rw [← relative]
  rw [hfull]
  apply ignores_congr
  · rw [seen_below, seen_of_relative absolute relative, ← hr]
  · rw [name_below rules.root named, ← hr]

theorem ignores_written_in_full_dots :
    let root := Path.resolve (ofString "/home/app/") (ofString "../site")
    let rules : IgnoreRules := ⟨root, ["gen"], ["../*.log"]⟩
    root.isAbsolute ∧ (∀ part ∈ root.parts, IsPart part) ∧ root.parts ≠ [] ∧
      (ofString ".//../x.log").anchor = .relative ∧ (ofString ".//../x.log").parts ≠ [] ∧
      rules.ignores (ofString ".//../x.log") ∧
      rules.ignores (ofString (root.toString ++ "/" ++ ".//../x.log")) := by
  intro root rules
  have ha : root.isAbsolute := by decide
  have hp : ∀ part ∈ root.parts, IsPart part := by decide
  have hi : root.parts ≠ [] := by decide
  have hr : (ofString ".//../x.log").anchor = .relative := by decide
  have hn : (ofString ".//../x.log").parts ≠ [] := by decide
  have h : rules.ignores (ofString ".//../x.log") := by decide +kernel
  exact ⟨ha, hp, hi, hr, hn, h, ignores_written_in_full rules ha hp hi hr hn ▸ h⟩

end Ancestry.IgnoreRules
