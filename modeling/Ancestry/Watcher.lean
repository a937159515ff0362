import Ancestry.Ignore
import Ancestry.Session.Basic

/-!
Watchers: they hear what the file system reports and tell those who asked, per kind of event.

Only component files that no rule ignores are of interest. A move counts as a deletion and a
creation. Callbacks run in the order of their registration, each once for a notice, and one that
fails does not keep the others from running.
-/

namespace Ancestry

/-- The loop that callbacks run on: none, one that takes work, or one that takes none any more. -/
inductive Loop where
  | absent
  | running
  | closed
  deriving DecidableEq, Repr

/-- What a file system reports. -/
inductive Report where
  | created (path : String)
  | modified (path : String)
  | deleted (path : String)
  | moved (source target : String)
  | other
  deriving DecidableEq, Repr

/-- An event for the callbacks of its kind. -/
structure Notice where
  kind : EventKind
  path : String
  deriving DecidableEq, Repr

/-- Whether callbacks run before a notice returns, or afterwards on a loop. -/
inductive Delivery where
  | now
  | later
  deriving DecidableEq, Repr

/-- What a callback does to a state, and its complaint if it fails. -/
abbrev Effect (α σ : Type) := α → String → σ → σ × Option String

/-- A watcher whose callbacks are named by `α`. -/
structure Watcher (α : Type) where
  root : Path
  extension : String
  rules : IgnoreRules
  callbacks : EventKind → List α
  isRunning : Bool
  loop : Loop

/-- Why a watcher does not start. -/
inductive StartError where
  | alreadyRunning
  /-- The file system cannot be observed. -/
  | unobserved (message : String)
  deriving DecidableEq, Repr

def StartError.message : StartError → String
  | alreadyRunning => "FileWatcher is already running"
  | unobserved message => message

namespace Watcher
variable {α σ : Type}

/-- Who speaks of watching in the log. -/
def logger : String := "provide_seeker.file_watcher"

/-- A watcher that does not run and has no callbacks. -/
def new (root : Path) (extension : String) (rules : IgnoreRules) : Watcher α × List Log.Entry :=
  (⟨root, extension, rules, fun _ => [], false, .absent⟩,
    [⟨logger, .info, "FileWatcher initialized for " ++ root.toString⟩])

def ignores (w : Watcher α) (path : String) : Bool :=
  w.rules.ignores (Path.ofString path)

def isComponent (w : Watcher α) (path : String) : Bool :=
  (Path.ofString path).extension = w.extension

/-- Whether a path is of interest. -/
def accepts (w : Watcher α) (path : String) : Bool :=
  w.isComponent path && !w.ignores path

def setCallbacks (kind : EventKind) (callbacks : List α) (w : Watcher α) : Watcher α :=
  { w with callbacks := fun k => if k = kind then callbacks else w.callbacks k }

/-- Adds a callback for a kind, unless it is there. -/
def add [DecidableEq α] (kind : EventKind) (callback : α) (w : Watcher α) : Watcher α :=
  if callback ∈ w.callbacks kind then w
  else w.setCallbacks kind (w.callbacks kind ++ [callback])

/-- Adds a callback for the kind that a word names. -/
def register [DecidableEq α] (word : String) (callback : α) (w : Watcher α) :
    Except UnknownKind (Watcher α) :=
  (EventKind.ofString word).map fun kind => w.add kind callback

/-- Removes a callback from the kind that a word names, if it is there. -/
def unregister [DecidableEq α] (word : String) (callback : α) (w : Watcher α) : Watcher α :=
  match EventKind.ofString word with
  | .ok kind => w.setCallbacks kind ((w.callbacks kind).erase callback)
  | .error _ => w

/-- Runs callbacks one after the other. A failure is logged and the next one runs. -/
def runAll (effect : Effect α σ) (notice : Notice) : List α → σ → σ × List Log.Entry
  | [], state => (state, [])
  | callback :: rest, state =>
    let (state, failure?) := effect callback notice.path state
    let (state, entries) := runAll effect notice rest state
    match failure? with
    | none => (state, entries)
    | some failure =>
      (state, ⟨logger, .error, "File event callback failed for " ++ notice.kind.text ++ " " ++
        notice.path ++ ": " ++ failure⟩ :: entries)

/-- Runs the callbacks of a notice. -/
def deliver (w : Watcher α) (effect : Effect α σ) (notice : Notice) (state : σ) :
    σ × List Log.Entry :=
  runAll effect notice (w.callbacks notice.kind) state

/-- Runs the callbacks of several notices. -/
def deliverAll (w : Watcher α) (effect : Effect α σ) : List Notice → σ → σ × List Log.Entry
  | [], state => (state, [])
  | notice :: rest, state =>
    let (state, entries) := w.deliver effect notice state
    let (state, more) := w.deliverAll effect rest state
    (state, entries ++ more)

/-- A loop that still takes work runs the callbacks. -/
def delivery (w : Watcher α) : Delivery :=
  if w.loop = .running then .later else .now

/-- Tells the callbacks of the kind that a word names. On a loop an unknown word reaches nobody. -/
def notify (w : Watcher α) (effect : Effect α σ) (word path : String) (state : σ) :
    Except UnknownKind (σ × List Log.Entry) :=
  match EventKind.ofString word with
  | .ok kind => .ok (w.deliver effect ⟨kind, path⟩ state)
  | .error e => if w.delivery = .later then .ok (state, []) else .error e

/-- A notice about a path, if it is of interest. -/
def noticeOf (w : Watcher α) (kind : EventKind) (path : String) : List Notice :=
  if w.accepts path then [⟨kind, path⟩] else []

/-- The notices that a report about a file leads to. Those about directories lead to none. -/
def notices (w : Watcher α) (isDirectory : Bool) (report : Report) : List Notice :=
  if isDirectory then []
  else
    match report with
    | .created path => w.noticeOf .created path
    | .modified path => w.noticeOf .changed path
    | .deleted path => w.noticeOf .deleted path
    | .moved source target => w.noticeOf .deleted source ++ w.noticeOf .created target
    | .other => []

/-- Starts to run, with a loop for the callbacks or without. `obstacle?` says why the file system
cannot be observed, if it cannot; the loop stays then. -/
def start (obstacle? : Option String) (loop : Loop) (w : Watcher α) :
    Except StartError (List Log.Entry) × Watcher α :=
  if w.isRunning then (.error .alreadyRunning, w)
  else
    match obstacle? with
    | some message => (.error (.unobserved message), { w with loop })
    | none =>
      (.ok [⟨logger, .info, "FileWatcher started, monitoring " ++ w.root.toString⟩],
        { w with isRunning := true, loop })

/-- Stops running and lets go of the loop. -/
def stop (w : Watcher α) : Watcher α × List Log.Entry :=
  ({ w with isRunning := false, loop := .absent },
    if w.isRunning then [⟨logger, .info, "FileWatcher stopped"⟩] else [])

end Watcher
end Ancestry
