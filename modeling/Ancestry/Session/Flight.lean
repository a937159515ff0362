import Ancestry.Session.Call

/-!
Calls in flight. A call that needs files to be read stops at each read and goes on when the read has
ended; other calls, events and changes of files may come in between.

A call consists of branches that move independently: one for a simple call, and for a search one for
each file that it came to. A branch that looks for importers reads all candidates side by side, in
one cell each.
-/

namespace Ancestry

/-- One candidate of a scan: not looked at yet, being read, or known to import the component
or not. -/
inductive Cell where
  | idle (path : String)
  | reading (read : Read)
  | settled (path : String) (imports : Bool)
  deriving DecidableEq, Repr

namespace Cell

def isSettled : Cell → Bool
  | settled _ _ => true
  | _ => false

/-- The path of a cell that turned out to import the component. -/
def importer? : Cell → Option String
  | settled path true => some path
  | _ => none

end Cell

/-- A search for the importers of a component, with the epoch in which it began. -/
structure Scan where
  name : String
  epoch : Nat
  cells : List Cell
  deriving DecidableEq, Repr

def Scan.isSettled (scan : Scan) : Bool :=
  scan.cells.all Cell.isSettled

/-- Where one branch of a call stands. -/
inductive Branch where
  /-- A file that the search came to and did not visit yet. -/
  | visiting (path : String)
  /-- The text of a file is being read. -/
  | reading (read : Read)
  /-- The text of a file is being read for its provide calls. -/
  | looking (read : Read)
  | scanning (scan : Scan)
  | finished
  deriving DecidableEq, Repr

/-- The reads of a branch that have not ended. -/
def Branch.reads : Branch → List Read
  | reading r | looking r => [r]
  | scanning scan => scan.cells.filterMap fun
    | .reading r => some r
    | _ => none
  | _ => []

/-- A call in flight. -/
structure Flight where
  call : Call
  visited : List String := []
  records : List Record := []
  branches : List Branch := [.finished]
  /-- The value of a call that is no search, once it is there. -/
  value? : Option Answer := none

namespace Flight

def setBranch (b : Nat) (branch : Branch) (fl : Flight) : Flight :=
  { fl with branches := fl.branches.set b branch }

def finish (b : Nat) (fl : Flight) : Flight :=
  fl.setBranch b .finished

/-- What the call returns, if it is at its end. A search is when all of its branches are. -/
def answer? (fl : Flight) : Option Answer :=
  match fl.call with
  | .ancestors _ | .ancestorsOfFile _ =>
    if fl.branches.all (· = .finished) then some (.records fl.records) else none
  | _ => fl.value?

/-- Goes on with the importers of a component: the answer, or files to visit. -/
def withImporters (b : Nat) (found : List String) (fl : Flight) : Flight :=
  let fl := fl.finish b
  match fl.call with
  | .importers _ => { fl with value? := some (.paths found) }
  | _ => { fl with branches := fl.branches ++ found.map .visiting }

end Flight

namespace Session

/-- Looks for the importers of a component. Without candidates there is nothing to wait for. -/
def explore (b : Nat) (name : String) (s : Session) (fl : Flight) : Session × Flight :=
  match s.importers.lists.get? name with
  | some found => ({ s with importers := s.importers.countHit }, fl.withImporters b found)
  | none =>
    let g := s.importers.countMiss
    if s.candidates = [] then
      let (found, importers) := g.settle s.candidates name g.epoch []
      ({ s with importers }, fl.withImporters b found)
    else
      ({ s with importers := g },
        fl.setBranch b (.scanning ⟨name, g.epoch, s.candidates.map .idle⟩))

/-- Goes on with the provide calls of a file: the answer, or a record and the way up. -/
def withCalls (b : Nat) (path : String) (calls : List String) (s : Session) (fl : Flight) :
    Session × Flight :=
  match fl.call with
  | .provides _ => (s, { fl.finish b with value? := some (.calls calls) })
  | _ =>
    let records := if calls = [] then fl.records else fl.records ++ [recordOf path calls]
    s.explore b (componentName path) { fl with records }

/-- Looks up the provide calls of a file. -/
def lookUp (b : Nat) (path : String) (s : Session) (fl : Flight) : Session × Flight :=
  match s.contents.calls.get? path with
  | some calls => { s with contents := s.contents.countCallsHit }.withCalls b path calls fl
  | none =>
    let c := s.contents.countCallsMiss
    match c.texts.get? path with
    | some text =>
      let calls := Contents.callsIn text
      let c := c.countTextHit.keepCalls path (c.markOf path) calls
      { s with contents := c }.withCalls b path calls fl
    | none =>
      let (r, c) := c.request path
      ({ s with contents := c }, fl.setBranch b (.looking r))

/-- Begins a call and takes it to its first stop. -/
def beginCall (call : Call) (s : Session) : Session × Flight :=
  let fl : Flight := { call }
  match call with
  | .text path =>
    match s.contents.texts.get? path with
    | some text =>
      ({ s with contents := s.contents.countTextHit }, { fl with value? := some (.text text) })
    | none =>
      let (r, c) := s.contents.request path
      ({ s with contents := c }, fl.setBranch 0 (.reading r))
  | .provides path => s.lookUp 0 path fl
  | .importers name => s.explore 0 name fl
  | .ancestors name => s.explore 0 name fl
  | .ancestorsOfFile path =>
    if s.isComponent path then s.explore 0 (componentName path) fl else (s, fl)

/-- Visits a file, unless the search was there before. -/
def visit (b : Nat) (path : String) (s : Session) (fl : Flight) : Session × Flight :=
  if path ∈ fl.visited then (s, fl.finish b)
  else s.lookUp b path { fl with visited := path :: fl.visited }

/-- Begins with one candidate of a scan. -/
def openCell (name path : String) (s : Session) : Session × Cell :=
  match s.contents.texts.get? path with
  | some text =>
    ({ s with contents := s.contents.countTextHit },
      .settled path (Source.importsName text name))
  | none =>
    let (r, c) := s.contents.request path
    ({ s with contents := c }, .reading r)

/-- Lets a read take a slot and the current text of its file. -/
def takeText (files : Files) (r : Read) (s : Session) : Session × Read :=
  ({ s with contents := s.contents.countRead }, { r with state := .holding (files r.path) })

/-- Keeps what a read brought, if it may be kept. -/
def keepRead (r : Read) (text : String) (s : Session) : Session :=
  { s with contents := s.contents.keepText r.path r.mark text }

/-- Ends a read. -/
def endRead (r : Read) (text? : Option String) (s : Session) : Session :=
  { s with contents := s.contents.countEnd text? }.keepRead r (Contents.textRead text?)

/-- Ends the read of a branch that looks for provide calls. -/
def endLookUp (b : Nat) (r : Read) (text? : Option String) (s : Session) (fl : Flight) :
    Session × Flight :=
  let s := s.endRead r text?
  let calls := Contents.callsIn (Contents.textRead text?)
  { s with contents := s.contents.keepCalls r.path r.mark calls }.withCalls b r.path calls fl

/-- Ends a scan all of whose cells are settled. -/
def endScan (b : Nat) (scan : Scan) (s : Session) (fl : Flight) : Session × Flight :=
  let (found, importers) :=
    s.importers.settle s.candidates scan.name scan.epoch (scan.cells.filterMap Cell.importer?)
  ({ s with importers }, fl.withImporters b found)

end Session
end Ancestry
