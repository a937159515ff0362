import Ancestry.Disk.Tree
import Ancestry.Pattern.Wildcard

/-!
Path patterns: components that are names, name patterns, or two asterisks for any number of
directories. A pattern is followed from a directory, component by component.
-/

namespace Ancestry.Disk

/-- Why a text is no path pattern. -/
inductive GlobError where
  | empty
  | absolute
  | noComponents
  | onlySlash
  | partialStars
  /-- A path on the way that is too long. -/
  | path (fault : PathFault)
  /-- The stack is used up. -/
  | tooDeep
  deriving DecidableEq, Repr

def GlobError.message : GlobError → String
  | empty => "Unacceptable pattern: ''"
  | absolute => "Non-relative patterns are unsupported"
  | noComponents => "tuple index out of range"
  | onlySlash => "'_TerminatingSelector' object has no attribute 'select_from'"
  | partialStars => "Invalid pattern: '**' can only be an entire path component"
  | path fault => fault.message
  | tooDeep => "maximum recursion depth exceeded"

/-- Whether the text is to blame, and not what it asks for. -/
def GlobError.isInvalidValue : GlobError → Bool
  | empty | partialStars => true
  | absolute | noComponents | onlySlash | path _ | tooDeep => false

/-- One component of a path pattern. -/
inductive Selector where
  | anyDirectories
  | name (name : String)
  | pattern (pieces : List Pattern.Piece)
  deriving DecidableEq, Repr

/-- A path pattern. One that ends in a slash selects directories only. -/
structure Glob where
  selectors : List Selector
  directoriesOnly : Bool
  deriving DecidableEq, Repr

/-- How far the stack reaches, whatever a pattern and a search take of it. -/
structure Stack where
  /-- Whether it lasts until a pattern of these components is prepared. -/
  prepares : List String → Bool
  /-- Whether it lasts until the search from a directory ends, or meets a path that is too long. -/
  searches : Tree → List String → Glob → Bool

/-- A stack that is never used up. -/
def Stack.ample : Stack :=
  ⟨fun _ => true, fun _ _ _ => true⟩

namespace Selector

def hasStars : List Char → Bool
  | '*' :: '*' :: _ => true
  | _ :: s => hasStars s
  | [] => false

def ofString (part : String) : Except GlobError Selector :=
  let chars := part.toList
  if part = "**" then .ok .anyDirectories
  else if hasStars chars then .error .partialStars
  else if chars.any fun c => c = '*' || c = '?' || c = '[' then
    .ok (.pattern (Pattern.pieces chars))
  else .ok (.name part)

end Selector

namespace Glob

def ofString (pattern : String) : Except GlobError Glob := do
  let path := Path.ofString pattern
  let directoriesOnly := pattern.toList.getLast? = some '/'
  if pattern = "" then .error .empty
  else if path.isAbsolute then .error .absolute
  else if path.parts = [] then .error (if directoriesOnly then .onlySlash else .noComponents)
  else .ok ⟨← path.parts.mapM Selector.ofString, directoriesOnly⟩

/-- The pattern of a text, if the stack lasts. What is no relative path takes nothing of it. -/
def prepare (stack : Stack) (pattern : String) : Except GlobError Glob :=
  let path := Path.ofString pattern
  if path.isAbsolute || path.parts = [] || stack.prepares path.parts then ofString pattern
  else .error .tooDeep

/-- The place of a path from the root, if there is something. -/
def lookUp (t : Tree) (path : List String) : Except PathFault (Option (List String)) :=
  t.find? ⟨.root, []⟩ ⟨.root, path⟩

/-- The paths that selectors lead to from a directory. All but the last step lead to directories,
and the last one too if `directoriesOnly` holds. Paths keep the double dots of the pattern. -/
def follow (t : Tree) (directoriesOnly : Bool) :
    List Selector → List String → Except PathFault (List (List String))
  | [], here => .ok [here]
  | selector :: rest, here => do
    let fits (place : List String) : Bool :=
      (rest = [] && !directoriesOnly) || t.isDirectory place
    match selector with
    | .name name =>
      let place? ← lookUp t (here ++ [name])
      if place?.any fits then follow t directoriesOnly rest (here ++ [name]) else return []
    | .pattern pieces =>
      match ← lookUp t here with
      | none => return []
      | some place =>
        let names := (t.names place).filter fun name =>
          Pattern.matchesText pieces name.toList && fits (place ++ [name])
        return (← names.mapM fun name => follow t directoriesOnly rest (here ++ [name])).flatten
    | .anyDirectories =>
      match ← lookUp t here with
      | none => return []
      | some place =>
        let found ← (t.directoriesBelow place).mapM fun d =>
          follow t directoriesOnly rest (here ++ d.drop place.length)
        return found.flatten.eraseDups

/-- The files under a root that a path pattern selects. -/
def files (t : Tree) (glob : Glob) (root : List String) : Except PathFault (List (List String)) := do
  match ← lookUp t root with
  | none => return []
  | some place =>
    if t.isDirectory place then
      (← follow t glob.directoriesOnly glob.selectors root).filterM fun path => do
        return (← lookUp t path).any t.isFile
    else return []

end Glob
end Ancestry.Disk
