import Ancestry.Candidates
import Ancestry.Session.Basic
import Ancestry.Settings

/-!
Projects: a directory under analysis, what selects and excludes its files, and the session on them.
-/

namespace Ancestry

/-- The files of a tree, by their written paths as seen from the directory `here`. A path that ends
in a slash or in a single dot names no file. -/
def Disk.Tree.files (tree : Disk.Tree) (here : Path) : Files := fun path =>
  match (path.toList.splitOn '/').getLast? with
  | some [] | some ['.'] => none
  | _ =>
    match tree.text (here.join (Path.ofString path)).parts with
    | .ok text => some (String.ofList text)
    | .error _ => none

structure Project where
  root : Path
  /-- Selects the candidates below the root. -/
  glob : String
  rules : IgnoreRules
  /-- How many files are read at once. -/
  slots : Nat
  session : Session

namespace Project

/-- Who speaks of sessions in the log. -/
def logger : String := "provide_seeker.session"

/-- The project of a directory, which is `here` unless it is given. It has no candidates yet. -/
def new (tree : Disk.Tree) (here : Path) (root? : Option Path) (settings : Settings) :
    Except Disk.PathFault (Project × List Log.Entry) := do
  let given := root?.getD here
  if Disk.hasNull given then throw ⟨given.toString, .nullCharacter⟩
  let root := here.resolve given
  let (rules, entries) ← IgnoreRules.new tree root none settings.patterns
  let session := Session.new settings.strict settings.componentExtension []
  return (⟨root, settings.componentGlob, rules, settings.maxReads, session⟩,
    entries ++ [⟨logger, .info,
      "AnalysisSession initialized with project_root=" ++ root.toString⟩])

def withSession (s : Session) (p : Project) : Project :=
  { p with session := s }

/-- Looks for the candidates again. -/
def refresh (stack : Disk.Stack) (tree : Disk.Tree) (p : Project) :
    Except Disk.GlobError (Project × List Log.Entry) := do
  let paths ← listCandidates stack tree p.root p.glob p.rules
  return (p.withSession (p.session.setCandidates paths),
    [⟨logger, .info, "File universe refreshed: " ++ toString paths.length ++
      " component file(s)"⟩])

/-- Drops everything that is kept. -/
def clear (p : Project) : Project × List Log.Entry :=
  (p.withSession p.session.clear, [⟨logger, .info, "AnalysisSession caches cleared"⟩])

end Project
end Ancestry
