import Ancestry.Path
import Ancestry.Text.Lines
import Ancestry.Text.Surrogate
import Ancestry.Text.Utf8

/-!
File trees: the files and directories that a program can see, by their paths from the root. A
directory need not be listed if something is in it.
-/

namespace Ancestry.Disk

inductive Item where
  | directory
  | file (bytes : List UInt8)
  deriving DecidableEq, Repr

/-- Items by the components of their absolute paths. -/
structure Tree where
  items : List (List String × Item)

/-- Why nothing can be done at a path. -/
inductive Fault where
  | missing
  | isDirectory
  | notDirectory
  | alreadyThere
  | nameTooLong
  | nullCharacter
  | badText (error : Text.Utf8.Error)
  deriving DecidableEq, Repr

/-- The wording of the operating system for a fault at a path. -/
def Fault.message (path : String) : Fault → String
  | missing => "[Errno 2] No such file or directory: " ++ Text.quoted path
  | isDirectory => "[Errno 21] Is a directory: " ++ Text.quoted path
  | notDirectory => "[Errno 20] Not a directory: " ++ Text.quoted path
  | alreadyThere => "[Errno 17] File exists: " ++ Text.quoted path
  | nameTooLong => "[Errno 36] File name too long: " ++ Text.quoted path
  | nullCharacter => "embedded null byte"
  | badText error => error.message

/-- A fault at a path. -/
structure PathFault where
  path : String
  fault : Fault
  deriving DecidableEq, Repr

def PathFault.message (f : PathFault) : String :=
  f.fault.message f.path

/-- How many bytes a component of a path may have. -/
def maxName : Nat := 255

/-- How many bytes a path may have in all. -/
def maxPath : Nat := 4095

/-- Whether a path has a null character. -/
def hasNull (p : Path) : Bool :=
  p.parts.any (·.toList.contains '\x00')

/-- Whether a name can be that of a file: it has no null character and no half of a surrogate
pair. -/
def isName (name : String) : Bool :=
  name.toList.all fun c => c ≠ '\x00' && (Text.half? c).isNone

namespace Tree

def empty : Tree :=
  ⟨[]⟩

/-- The item that is listed at a path. -/
def item? (t : Tree) (path : List String) : Option Item :=
  t.items.lookup path

def isDirectory (t : Tree) (path : List String) : Bool :=
  path = [] || t.items.any fun e =>
    (e.1 = path && e.2 = .directory) || (path.isPrefixOf e.1 && path.length < e.1.length)

def isFile (t : Tree) (path : List String) : Bool :=
  match t.item? path with
  | some (.file _) => true
  | _ => false

def isThere (t : Tree) (path : List String) : Bool :=
  t.isFile path || t.isDirectory path

/-- Follows a path from a directory, with double dots for the directory above. -/
def walk (t : Tree) (here : List String) : List String → Except Fault (List String)
  | [] => .ok here
  | part :: rest =>
    if !t.isDirectory here then .error (if t.isFile here then .notDirectory else .missing)
    else if maxName < part.utf8ByteSize then .error .nameTooLong
    else t.walk (if part = ".." then here.dropLast else here ++ [part]) rest

/-- The place that a path leads to, as seen from the directory `here`. -/
def find (t : Tree) (here p : Path) : Except Fault (List String) := do
  if !p.parts.all isName then .error .missing
  else if maxPath < p.toString.utf8ByteSize then .error .nameTooLong
  else
    let place ← t.walk [] (here.join p).parts
    if t.isThere place then .ok place else .error .missing

/-- The place that a path leads to, if there is something. Only a path that is too long is a
fault. -/
def find? (t : Tree) (here p : Path) : Except PathFault (Option (List String)) :=
  match t.find here p with
  | .ok place => .ok (some place)
  | .error .nameTooLong => .error ⟨p.toString, .nameTooLong⟩
  | .error _ => .ok none

/-- The bytes of the file at an absolute path. -/
def bytes (t : Tree) (path : List String) : Except Fault (List UInt8) := do
  let path ← t.walk [] path
  match t.item? path with
  | some (.file bytes) => .ok bytes
  | _ => .error (if t.isDirectory path then .isDirectory else .missing)

/-- The names of the items in a directory, each once. -/
def names (t : Tree) (directory : List String) : List String :=
  (t.items.filterMap fun e => (directory.isPrefixOf? e.1).bind List.head?).eraseDups

/-- All directories at and below a path. -/
def directoriesBelow (t : Tree) (path : List String) : List (List String) :=
  ((t.items.flatMap fun e => (List.range (e.1.length + 1)).map e.1.take).eraseDups).filter fun d =>
    path.isPrefixOf d && t.isDirectory d

/-- Puts an item at a path, in place of what was listed there. -/
def write (t : Tree) (path : List String) (item : Item) : Tree :=
  ⟨t.items.filter (·.1 ≠ path) ++ [(path, item)]⟩

/-- Removes what is listed at a path. The directory above stays. -/
def remove (t : Tree) (path : List String) : Tree :=
  ⟨t.items.filter (·.1 ≠ path) ++ [(path.dropLast, .directory)]⟩

/-- The text of the file at an absolute path, with line feeds for all line breaks. -/
def text (t : Tree) (path : List String) : Except Fault (List Char) := do
  match Text.Utf8.text (← t.bytes path) with
  | .ok chars => .ok (Text.normalizeBreaks chars)
  | .error e => .error (.badText e)

end Tree
end Ancestry.Disk
