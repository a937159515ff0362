/-!
Slash-separated paths. Empty components and single dots are dropped when a path is read; double dots
stay until a path is resolved.
-/

namespace Ancestry

/-- Where a path starts: anywhere, at the root, or at the root written with exactly two slashes. -/
inductive Anchor where
  | relative
  | root
  | doubleRoot
  deriving DecidableEq, Repr

namespace Anchor

def text : Anchor → String
  | relative => ""
  | root => "/"
  | doubleRoot => "//"

/-- The anchor of a path that is written with `n` leading slashes. -/
def ofSlashes : Nat → Anchor
  | 0 => relative
  | 2 => doubleRoot
  | _ => root

end Anchor

/-- A path: its anchor and its components. -/
structure Path where
  anchor : Anchor
  parts : List String
  deriving DecidableEq, Repr

namespace Path

/-- Reads a path. -/
def ofString (s : String) : Path where
  anchor := .ofSlashes (s.toList.takeWhile (· = '/')).length
  parts := ((s.toList.splitOn '/').map String.ofList).filter fun part => part ≠ "" && part ≠ "."

/-- The written form. The relative path of no components is a single dot. -/
def toString (p : Path) : String :=
  if p.anchor = .relative && p.parts = [] then "."
  else p.anchor.text ++ "/".intercalate p.parts

/-- The anchor, if there is one, and the components. -/
def allParts (p : Path) : List String :=
  if p.anchor = .relative then p.parts else p.anchor.text :: p.parts

def isAbsolute (p : Path) : Bool :=
  p.anchor ≠ .relative

/-- The last component, empty if there is none. -/
def name (p : Path) : String :=
  p.parts.getLast?.getD ""

/-- Divides a name before its last dot. A dot at either end divides nothing. -/
def splitName (name : List Char) : List Char × List Char :=
  let extension := (name.reverse.takeWhile (· ≠ '.')).reverse
  let before := name.take (name.length - extension.length - 1)
  if extension = [] || before = [] || extension.length = name.length then (name, [])
  else (before, '.' :: extension)

/-- The name without its extension. -/
def stem (p : Path) : String :=
  String.ofList (splitName p.name.toList).1

/-- The extension of the name with its dot, or nothing. -/
def extension (p : Path) : String :=
  String.ofList (splitName p.name.toList).2

/-- The path `p`, joined to `base` if `p` is relative. -/
def join (base p : Path) : Path :=
  if p.isAbsolute then p else ⟨base.anchor, base.parts ++ p.parts⟩

/-- The components with every double dot resolved against the component before it. -/
def collapse (parts : List String) : List String :=
  (parts.foldl (fun done part => if part = ".." then done.drop 1 else part :: done) []).reverse

/-- The absolute path without double dots, where `here` is the working directory. -/
def resolve (here p : Path) : Path :=
  ⟨.root, collapse (here.join p).parts⟩

/-- The components of `p` below `base`, if it is below. -/
def below? (base p : Path) : Option (List String) :=
  if p.anchor = base.anchor then base.parts.isPrefixOf? p.parts else none

end Path

/-- The component that a file defines: the name of the file without its extension. Two files of one
name in different directories define the same component. -/
def componentName (path : String) : String :=
  (Path.ofString path).stem

end Ancestry
