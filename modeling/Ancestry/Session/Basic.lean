import Ancestry.Path
import Ancestry.Session.Contents
import Ancestry.Session.Importers
import Ancestry.Source.Import
import Ancestry.Text.Quoted

/-!
Sessions: the files under analysis, what is kept of them, and how both follow the events of the file
system.

After a change of a file the importers of its own component are looked for again, and those lists
that merely contain the file stay. A strict session drops all lists instead.
-/

namespace Ancestry

structure Session where
  /-- Whether a change drops the importers of every component. -/
  strict : Bool
  /-- The extension of component files. -/
  extension : String
  /-- The candidates: the files under analysis, in the order of search. -/
  candidates : List String
  contents : Contents
  importers : Importers

/-- What may happen to a file. -/
inductive EventKind where
  | created
  | changed
  | deleted
  deriving DecidableEq, Repr

/-- A word that names no kind of event. -/
structure UnknownKind where
  word : String
  deriving DecidableEq, Repr

def UnknownKind.message (e : UnknownKind) : String :=
  "Unknown file event kind: " ++ e.word

/-- The word on its own, between quotes. -/
def UnknownKind.shown (e : UnknownKind) : String :=
  Text.quoted e.word

namespace EventKind

def ofString : String → Except UnknownKind EventKind
  | "created" => .ok created
  | "changed" => .ok changed
  | "deleted" => .ok deleted
  | word => .error ⟨word⟩

def text : EventKind → String
  | created => "created"
  | changed => "changed"
  | deleted => "deleted"

end EventKind

namespace Session

def new (strict : Bool) (extension : String) (candidates : List String) : Session :=
  ⟨strict, extension, candidates, .empty, .empty⟩

/-- Whether a path has the extension of component files. -/
def isComponent (s : Session) (path : String) : Bool :=
  (Path.ofString path).extension = s.extension

def invalidateFile (path : String) (s : Session) : Session :=
  { s with contents := s.contents.invalidate path }

def invalidateComponent (name : String) (s : Session) : Session :=
  { s with importers := s.importers.invalidate name }

def clearImporters (s : Session) : Session :=
  { s with importers := s.importers.clear }

def clearContents (s : Session) : Session :=
  { s with contents := s.contents.clear }

/-- Drops everything that is kept; the candidates stay. -/
def clear (s : Session) : Session :=
  s.clearContents.clearImporters

def removeFromLists (path : String) (s : Session) : Session :=
  { s with importers := s.importers.removeFile path }

def setCandidates (paths : List String) (s : Session) : Session :=
  { s with candidates := paths }

/-- Drops what a change of `path` makes doubtful. -/
def refreshFile (path : String) (s : Session) : Session :=
  let s := s.invalidateFile path
  if s.strict then s.clearImporters else s.invalidateComponent (componentName path)

def onCreate (path : String) (s : Session) : Session :=
  let s := if path ∈ s.candidates then s else { s with candidates := s.candidates ++ [path] }
  s.refreshFile path

def onChange (path : String) (s : Session) : Session :=
  s.refreshFile path

def onDelete (path : String) (s : Session) : Session :=
  let s := ((s.invalidateFile path).invalidateComponent (componentName path)).removeFromLists path
  { s with candidates := s.candidates.erase path }

/-- Follows one event. -/
def handle (kind : EventKind) (path : String) (s : Session) : Session :=
  match kind with
  | .created => s.onCreate path
  | .changed => s.onChange path
  | .deleted => s.onDelete path

/-- The text of a file. -/
def text (files : Files) (path : String) (s : Session) : String × Session :=
  let (text, contents) := s.contents.text files path
  (text, { s with contents })

/-- The provide calls of a file. -/
def provides (files : Files) (path : String) (s : Session) : List String × Session :=
  let (calls, contents) := s.contents.provides files path
  (calls, { s with contents })

/-- The files among `paths` whose scripts import `name`. -/
def importersAmong (files : Files) (name : String) :
    List String → Contents → List String × Contents
  | [], c => ([], c)
  | path :: paths, c =>
    let (text, c) := c.text files path
    let (found, c) := importersAmong files name paths c
    (if Source.importsName text name then path :: found else found, c)

/-- The candidates that import a component, in their own order. -/
def importersOf (files : Files) (name : String) (s : Session) : List String × Session :=
  match s.importers.lists.get? name with
  | some found => (found, { s with importers := s.importers.countHit })
  | none =>
    let g := s.importers.countMiss
    let (found, contents) := importersAmong files name s.candidates s.contents
    let (found, importers) := g.settle s.candidates name g.epoch found
    (found, { s with contents, importers })

/-- The counters of both caches. -/
def statistics (s : Session) : Statistics :=
  s.contents.stats.merge s.importers.stats

end Session
end Ancestry
