import Ancestry.Disk.Glob
import Ancestry.Ignore

/-!
Candidates: the files of a project that are worth analysing.
-/

namespace Ancestry

/-- The files under the root that the pattern selects and no rule ignores, in ascending order. -/
def candidates (tree : Disk.Tree) (root : Path) (pattern : String) (rules : IgnoreRules) :
    Except Disk.GlobError (List String) := do
  let glob ← Disk.Glob.ofString pattern
  let paths ← (glob.files tree root.parts).mapError .path
  let found := paths.map fun parts => (⟨root.anchor, parts⟩ : Path)
  return ((found.filter (!rules.ignores ·)).map Path.toString).mergeSort

/-- The candidates as far as the stack lasts. -/
def listCandidates (stack : Disk.Stack) (tree : Disk.Tree) (root : Path) (pattern : String)
    (rules : IgnoreRules) : Except Disk.GlobError (List String) := do
  let glob ← Disk.Glob.prepare stack pattern
  if stack.searches tree root.parts glob then candidates tree root pattern rules
  else throw .tooDeep

end Ancestry
