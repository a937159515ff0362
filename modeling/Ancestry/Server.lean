import Ancestry.Hover
import Ancestry.Project
import Ancestry.Session.Schedule
import Ancestry.Watcher

/-!
Servers: they answer requests about the files of a project and keep up with its changes.

A server starts with the first request that is in order: it looks for the candidates once, and from
then on only events change them. A request that is not in order changes nothing.
-/

namespace Ancestry

structure Server where
  project : Project
  /-- Follows the events of the file system; its callbacks are named by the kinds of events. -/
  watcher? : Option (Watcher EventKind)
  started : Bool

/-- Why a request is not answered. -/
inductive RequestError where
  | blank
  | tooLong
  | badGlob (error : Disk.GlobError)
  | watcher (error : StartError)
  | noHome
  | nullCharacter
  deriving DecidableEq, Repr

/-- The longest path of a request. -/
def maxPathLength : Nat := 4096

namespace RequestError

def message : RequestError → String
  | blank => "file_path must not be empty"
  | tooLong => "file_path exceeds " ++ toString maxPathLength ++ " characters"
  | badGlob error => error.message
  | watcher error => error.message
  | noHome => "Could not determine home directory."
  | nullCharacter => "embedded null byte"

/-- Whether a value that was given is to blame. -/
def isInvalidValue : RequestError → Bool
  | blank | tooLong | nullCharacter => true
  | badGlob error => error.isInvalidValue
  | watcher _ | noHome => false

end RequestError

/-- An ancestor as a reply lists it, with the entries of its provide calls. -/
structure Ancestor extends Record where
  entries : List Source.Entry
  deriving DecidableEq, Repr

def Ancestor.ofRecord (r : Record) : Ancestor :=
  { r with entries := Source.allEntries r.provides }

/-- The answer to a request for ancestors. -/
structure Reply where
  /-- The path in question, from the root of the file system. -/
  path : String
  component : String
  ancestors : List Ancestor
  /-- What an editor shows, if there is something to show. -/
  display? : Option Display
  deriving DecidableEq, Repr

/-- The reply for the ancestors that were found. -/
def Reply.ofRecords (path : String) (records : List Record) : Reply :=
  ⟨path, componentName path, records.map .ofRecord, Hover.display? records⟩

/-- What a tool tells its caller while it works. -/
inductive Remark where
  | info (text : String)
  | error (text : String)
  deriving DecidableEq, Repr

/-- Where a server works: the files, the working directory and the home directory, how far the stack
reaches, and why the file system cannot be observed, if it cannot. -/
structure Surroundings where
  tree : Disk.Tree
  here : Path
  home : Path
  stack : Disk.Stack := .ample
  obstacle? : Option String := none

namespace Server

/-- Who speaks of servers in the log. -/
def logger : String := "provide_seeker.mcp_server"

def info (message : String) : Log.Entry :=
  ⟨logger, .info, message⟩

/-- The names of the tools, in order. -/
def toolNames : List String :=
  ["find_providing_ancestors", "get_index_statistics"]

/-- The watcher of a server: for each kind of event there is one callback. -/
def watch (settings : Settings) (project : Project) : Watcher EventKind × List Log.Entry :=
  let (w, entries) := Watcher.new project.root settings.componentExtension project.rules
  (((w.add .created .created).add .changed .changed).add .deleted .deleted, entries)

/-- A server for a project. It watches if the settings say so. -/
def new (settings : Settings) (project : Project) : Server × List Log.Entry :=
  let (watcher?, entries) :=
    if settings.watches then (watch settings project).map some id else (none, [])
  (⟨project, watcher?, false⟩,
    entries ++ [info ("MCP tools registered: " ++ ", ".intercalate toolNames),
      info "ProvideSeekerMCPServer initialized"])

def withSession (session : Session) (s : Server) : Server :=
  { s with project := s.project.withSession session }

/-- Starts a watcher that does not run yet, with a loop for its callbacks. -/
def startWatcher (env : Surroundings) (w : Watcher EventKind) :
    Except RequestError (List Log.Entry) × Watcher EventKind :=
  if w.isRunning then (.ok [], w)
  else (w.start env.obstacle? .running).map (·.mapError .watcher) id

/-- Looks for the candidates and starts the watcher, unless that was done before. The new candidates
stay if the watcher does not start. -/
def ensureStarted (env : Surroundings) (s : Server) :
    Except RequestError (List Log.Entry) × Server :=
  if s.started then (.ok [], s)
  else
    match s.project.refresh env.stack env.tree with
    | .error e => (.error (.badGlob e), s)
    | .ok (project, entries) =>
      match s.watcher? with
      | none => (.ok entries, ⟨project, none, true⟩)
      | some w =>
        match startWatcher env w with
        | (.error e, w) => (.error e, ⟨project, some w, false⟩)
        | (.ok more, w) => (.ok (entries ++ more), ⟨project, some w, true⟩)

/-- Whether the path of a request is in order. -/
def fault? (path : String) : Option RequestError :=
  if Text.isBlank path.toList then some .blank
  else if maxPathLength < path.length then some .tooLong
  else none

/-- The path with a tilde in front replaced by the home directory. Those of others are unknown. -/
def expandHome (home path : Path) : Except RequestError Path :=
  match path.anchor, path.parts with
  | .relative, first :: rest =>
    match first.toList with
    | ['~'] => .ok ⟨home.anchor, home.parts ++ rest⟩
    | '~' :: user => .error (if '\x00' ∈ user then .nullCharacter else .noHome)
    | _ => .ok path
  | _, _ => .ok path

/-- The path of a request from the root of the file system. -/
def locate (env : Surroundings) (path : String) : Except RequestError Path := do
  let path ← expandHome env.home (Path.ofString path)
  if path.parts.any (·.toList.contains '\x00') then throw .nullCharacter
  return env.here.resolve path

/-- Answers a request about a path that is located. -/
def reply (env : Surroundings) (path : Path) (s : Server) : Reply × Server :=
  let path := path.toString
  let (records, session) :=
    Schedule.ancestorsOfFile (env.tree.files env.here) s.project.slots path s.project.session
  (.ofRecords path records, s.withSession session)

theorem reply_eq (env : Surroundings) (path : Path) (s : Server) :
    s.reply env path =
      (.ofRecords path.toString (Schedule.ancestorsOfFile (env.tree.files env.here) s.project.slots
        path.toString s.project.session).1,
      s.withSession (Schedule.ancestorsOfFile (env.tree.files env.here) s.project.slots
        path.toString s.project.session).2) := by
  cases hx : Schedule.ancestorsOfFile (env.tree.files env.here) s.project.slots path.toString
    s.project.session
  simp only [reply, hx]

/-- Answers a request for the ancestors of a file. -/
def find (env : Surroundings) (path : String) (s : Server) : Except RequestError Reply × Server :=
  match fault? path with
  | some fault => (.error fault, s)
  | none =>
    match s.ensureStarted env with
    | (.error e, s) => (.error e, s)
    | (.ok _, s) =>
      match locate env path with
      | .error e => (.error e, s)
      | .ok place => (s.reply env place).map .ok id

/-- The tool that finds ancestors, with what it remarks. -/
def findTool (env : Surroundings) (path : String) (s : Server) :
    Except RequestError Reply × List Remark × Server :=
  let (result, s) := s.find env path
  let last : Remark := match result with
    | .ok r => .info ("Found " ++ toString r.ancestors.length ++ " providing ancestor(s)")
    | .error e =>
      .error ((if e.isInvalidValue then "Invalid request: "
        else "Unexpected error resolving " ++ path ++ ": ") ++ e.message)
  (result, [.info ("Finding providing ancestors for: " ++ path), last], s)

/-- What the tool for statistics remarks. -/
def statisticsRemarks : List Remark :=
  [.info "Collecting index statistics"]

/-- How the callbacks of a server act on its session. -/
def follow : Effect EventKind Session := fun kind path session =>
  (session.handle kind path, none)

/-- Hears a report of the file system, if there is a watcher. -/
def hear (isDirectory : Bool) (report : Report) (s : Server) : Server × List Log.Entry :=
  match s.watcher? with
  | none => (s, [])
  | some w =>
    let (session, entries) :=
      w.deliverAll follow (w.notices isDirectory report) s.project.session
    (s.withSession session, entries)

/-- Stops the watcher and drops what is kept. The candidates stay. -/
def shutdown (s : Server) : Server × List Log.Entry :=
  let (watcher?, entries) := match s.watcher? with
    | none => (none, [])
    | some w => w.stop.map some id
  let (project, more) := s.project.clear
  (⟨project, watcher?, s.started⟩, info "Shutting down MCP server" :: entries ++ more)

end Server
end Ancestry
