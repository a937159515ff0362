import Ancestry.Disk.Tree
import Ancestry.Log.Entry
import Ancestry.Pattern.Wildcard
import Ancestry.Text.Space

/-!
Ignore rules: the paths under a root that are never analysed. Three sources have a say: fixed names
of directories, the patterns of the ignore file of the project, and configured patterns.

Fixed names and patterns of the ignore file are tried on the path below the root, on its last
component and on each of its components. Configured patterns are tried on the path below the root
and on its last component, and once more without two leading asterisks and a slash.
-/

namespace Ancestry
open Ancestry.Pattern

structure IgnoreRules where
  root : Path
  /-- The patterns of the ignore file. -/
  listed : List String
  /-- The configured patterns. -/
  configured : List String
  deriving DecidableEq, Repr

namespace IgnoreRules

/-- Names that are ignored everywhere: build output, dependencies and version control. -/
def always : List String :=
  [".git", "node_modules", ".nuxt", ".output", ".vite", ".cache", "coverage", ".venv", "dist",
   "build"]

/-- The longest pattern that an ignore file may hold. -/
def maxPattern : Nat := 1000

def dropTrailingSlashes (line : List Char) : List Char :=
  (line.reverse.dropWhile (· = '/')).reverse

/-- The pattern on a trimmed line. A directory is meant with and without its slash. -/
def patternOf (line : List Char) : List Char :=
  if line = ['/'] then line else dropTrailingSlashes line

/-- What one line of an ignore file gives: a pattern, nothing, or a complaint. -/
def readLine (number : Nat) (line : List Char) : Option (Except Log.Entry String) :=
  let line := Text.trim line
  if line = [] || line.head? = some '#' then none
  else if maxPattern < line.length then
    some (.error ⟨"provide_seeker.ignore_rules", .warning,
      ".gitignore line " ++ toString number ++ ": Pattern too long (>1000 chars), skipping"⟩)
  else some (.ok (String.ofList (patternOf line)))

/-- The patterns of an ignore file and the complaints about it. -/
def readLines (lines : List (List Char)) : List String × List Log.Entry :=
  let found := (lines.zipIdx 1).filterMap fun (line, number) => readLine number line
  ((found.filterMap fun
      | .ok pattern => some pattern
      | .error _ => none).eraseDups,
    found.filterMap fun
      | .ok _ => none
      | .error entry => some entry)

/-- An error of which the log tells. -/
def complaint (message : String) : Log.Entry :=
  ⟨"provide_seeker.ignore_rules", .error, message⟩

/-- The lines of a text of which the end is missing: those that a line break ends. -/
def completeLines (text : List Char) : List (List Char) :=
  Text.lines (text.reverse.dropWhile (· ≠ '\n')).reverse

/-- The patterns of the bytes of an ignore file. Where they are no text, the lines that can be read
before the fault count all the same. -/
def readBytes (bytes : List UInt8) : List String × List Log.Entry :=
  let decoded := Text.Utf8.read bytes
  let text := Text.normalizeBreaks decoded.text
  match decoded.error? with
  | none => readLines (Text.lines text)
  | some e =>
    let (patterns, entries) := readLines (completeLines text)
    (patterns, entries ++ [complaint ("Failed to decode .gitignore (encoding error): " ++
      e.message)])

/-- Reads an ignore file. One that is not there gives no patterns. -/
def load (tree : Disk.Tree) (file : Path) :
    Except Disk.PathFault (List String × List Log.Entry) := do
  match ← tree.find? ⟨.root, []⟩ file with
  | none => return ([], [])
  | some place =>
    match tree.bytes place with
    | .ok bytes => return readBytes bytes
    | .error fault =>
      return ([], [complaint ("Failed to read .gitignore: " ++ fault.message file.toString)])

/-- The rules for a root. The ignore file is the one of the root unless another is given. -/
def new (tree : Disk.Tree) (root : Path) (file? : Option Path) (configured : List String) :
    Except Disk.PathFault (IgnoreRules × List Log.Entry) := do
  let file := file?.getD ⟨root.anchor, root.parts ++ [".gitignore"]⟩
  let (listed, entries) ← load tree file
  return (⟨root, listed, configured⟩, entries)

/-- The path as the rules see it: from the root if it is below, else as it is. -/
def seen (rules : IgnoreRules) (path : Path) : Path :=
  match rules.root.below? path with
  | some parts => ⟨.relative, parts⟩
  | none => path

/-- Whether a fixed name or a pattern of the ignore file applies. -/
def matchesListed (path seen : Path) (pattern : String) : Bool :=
  nameMatches pattern seen.toString || nameMatches pattern path.name ||
    seen.allParts.any (nameMatches pattern)

/-- Whether a configured pattern applies. -/
def matchesConfigured (path seen : Path) (pattern : String) : Bool :=
  nameMatches pattern seen.toString || nameMatches pattern path.name ||
    match "**/".toList.isPrefixOf? pattern.toList with
    | some rest => nameMatches (String.ofList rest) seen.toString
    | none => false

/-- Whether a path is never analysed. -/
def ignores (rules : IgnoreRules) (path : Path) : Bool :=
  let seen := rules.seen path
  (always ++ rules.listed).any (matchesListed path seen) ||
    rules.configured.any (matchesConfigured path seen)

end IgnoreRules
end Ancestry
