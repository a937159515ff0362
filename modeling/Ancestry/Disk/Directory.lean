import Ancestry.Disk.Tree

/-!
New directories.
-/

namespace Ancestry.Disk.Tree

/-- The path of the directory above. -/
def above (p : Path) : Path :=
  ⟨p.anchor, p.parts.dropLast⟩

/-- Makes a directory in one that is there. -/
def makeDirectory (t : Tree) (here p : Path) : Except Fault Tree := do
  if hasNull p then .error .nullCharacter
  else if maxPath < p.toString.utf8ByteSize then .error .nameTooLong
  else
    match p.parts.getLast? with
    | none => .error .alreadyThere
    | some name =>
      let parent ← t.walk [] (here.join (above p)).parts
      if !t.isDirectory parent then .error (if t.isFile parent then .notDirectory else .missing)
      else if name = ".." then .error .alreadyThere
      else if maxName < name.utf8ByteSize then .error .nameTooLong
      else if t.isThere (parent ++ [name]) then .error .alreadyThere
      else .ok (t.write (parent ++ [name]) .directory)

/-- What comes of a directory that could not be made: nothing is amiss if there is one already. -/
def excuse (t : Tree) (here p : Path) (fault : Fault) : Except PathFault Tree :=
  match fault, t.find here p with
  | .alreadyThere, .ok place =>
    if t.isDirectory place then .ok t else .error ⟨p.toString, fault⟩
  | _, _ => .error ⟨p.toString, fault⟩

/-- Makes a directory and those above it, as far as they are missing. Each step of the fuel goes up
by one. -/
def makeFrom (t : Tree) (here p : Path) : Nat → Except PathFault Tree
  | 0 => t.excuse here p .missing
  | fuel + 1 =>
    match t.makeDirectory here p with
    | .ok t => .ok t
    | .error .missing => do
      let t ← t.makeFrom here (above p) fuel
      match t.makeDirectory here p with
      | .ok t => .ok t
      | .error fault => t.excuse here p fault
    | .error fault => t.excuse here p fault

def makeDirectories (t : Tree) (here p : Path) : Except PathFault Tree :=
  t.makeFrom here p (p.parts.length + 1)

end Ancestry.Disk.Tree
