import Ancestry.Command.Options
import Ancestry.Log.Output
import Ancestry.Server

/-!
A run of the program: the log is set up, the settings are read, and a server is made, runs, and is
shut down again. What the transport does is not known here, except for how it fails, and how settings
are written is left to a reader of documents.
-/

namespace Ancestry.Command
open Ancestry.Calendar

/-- What a run relies on. -/
structure Services where
  /-- Makes a document of the bytes of a file. -/
  read : List UInt8 → Except Yaml.Error Yaml.Value
  /-- How many levels the stack leaves for a value in the log. -/
  levels : Nat
  /-- How a transport fails, if it does. -/
  serve : Transport → Option String

/-- Why a run fails. -/
inductive RunError where
  | log (error : Log.SetUpError)
  | noSettings (file : Path)
  | badSettings (error : Settings.LoadError)
  | badRoot (fault : Disk.PathFault)
  | transport (message : String)
  deriving DecidableEq, Repr

def RunError.message : RunError → String
  | log error => error.message
  | noSettings file => "Configuration file not found: " ++ file.toString
  | badSettings error => error.message
  | badRoot fault => fault.message
  | transport message => message

/-- What is left of a run: the log, the transports that served, and the failure if there was
one. -/
structure Trace where
  output : Log.Output
  transports : List Transport
  error? : Option RunError

/-- Sends the log where the options say. -/
def setUpLog (now : Moment) (here : Path) (options : Options) (o : Log.Output) :
    Except Log.SetUpError Log.Output :=
  match options.logDirectory? with
  | none => .ok o.setUpConsole
  | some directory => (o.setUp now here (some directory) .info true).map (·.2)

/-- The settings for a run. A file that is asked for has to be there. -/
def settings (services : Services) (tree : Disk.Tree) (here : Path) (options : Options) :
    List Log.Entry × Except RunError Settings :=
  let load (file : Path) : List Log.Entry × Except RunError Settings :=
    (Settings.load services.read services.levels tree here file).map id (·.mapError .badSettings)
  match options.config? with
  | none => load (here.join (Path.ofString Settings.fileName))
  | some file =>
    match tree.find? here file with
    | .error fault => ([], .error (.badSettings (.path fault)))
    | .ok none => ([], .error (.noSettings file))
    | .ok (some _) => load file

/-- Makes a server, lets it serve and shuts it down, and gives all that is logged meanwhile. -/
def serveOnce (tree : Disk.Tree) (here : Path) (options : Options) (settings : Settings) :
    Except RunError (List Log.Entry) := do
  let (project, entries) ←
    (Project.new tree here options.projectRoot? settings).mapError .badRoot
  let (server, more) := Server.new settings project
  return entries ++ more ++
    [Server.info ("Starting MCP server for project_root=" ++ project.root.toString),
      Server.info ("Starting MCP server with " ++ options.transport.name ++ " transport")] ++
    server.shutdown.2

/-- Runs the program. -/
def run (services : Services) (now : Moment) (here : Path) (options : Options)
    (tree : Disk.Tree) : Trace :=
  match setUpLog now here options { tree } with
  | .error e => ⟨{ tree }, [], some (.log e)⟩
  | .ok o =>
    let (entries, loaded) := settings services o.tree here options
    let o := o.logAll now entries
    match loaded.bind (serveOnce o.tree here options) with
    | .error e => ⟨o, [], some e⟩
    | .ok entries =>
      ⟨o.logAll now entries, [options.transport], (services.serve options.transport).map .transport⟩

end Ancestry.Command
