import Ancestry.Disk.Directory
import Ancestry.Log.Line

/-!
Where the log goes: to a file that is named for the day, to the console, or to both. Entries below
the level in force are dropped. Before anything is set up, warnings reach the console without any
trimmings.
-/

namespace Ancestry.Log
open Ancestry.Calendar

/-- Who receives entries. -/
structure Sink where
  level : Level
  /-- The place of the log file. -/
  file? : Option (List String)
  console : Bool
  deriving DecidableEq, Repr

/-- The files, what the console shows, and who receives entries. -/
structure Output where
  tree : Disk.Tree
  console : List String := []
  sink? : Option Sink := none

/-- Why a log is not set up. -/
inductive SetUpError where
  | path (fault : Disk.PathFault)
  /-- The calendar does not know the time in universal time. -/
  | clock
  deriving DecidableEq, Repr

def SetUpError.message : SetUpError → String
  | path fault => fault.message
  | clock => "date value out of range"

/-- The name of the directory for logs where none is given. -/
def directoryName : String := ".provide_seeker_logs"

/-- The name of the log file of a day. -/
def fileName (day : Date) : String :=
  "provide_seeker_" ++ day.stamp ++ ".log"

/-- The logger of those that have no name of their own. -/
def rootLogger : String := "root"

/-- Whether an entry of a level is received. Levels of zero and below never are. -/
def Sink.receives (sink : Sink) (level : Level) : Bool :=
  0 < level && sink.level ≤ level

namespace Output

/-- Puts a line at the end of a file. -/
def appendLine (place : List String) (line : String) (o : Output) : Output :=
  let before := match o.tree.item? place with
    | some (.file bytes) => bytes
    | _ => []
  { o with tree := o.tree.write place (.file (before ++ (line ++ "\n").toUTF8.toList)) }

/-- Shows a text on the console. -/
def tell (text : String) (o : Output) : Output :=
  { o with console := o.console ++ [text] }

/-- Logs an entry. -/
def log (now : Moment) (e : Entry) (extra : List (String × Json)) (o : Output) : Output :=
  match o.sink? with
  | none => if Level.warning ≤ e.level then o.tell e.message else o
  | some sink =>
    if !sink.receives e.level then o
    else
      let o := match sink.file?, fileLine? now e none extra with
        | some place, some line => o.appendLine place line
        | _, _ => o
      if sink.console then o.tell (consoleText now e) else o

/-- Logs entries, one after the other. -/
def logAll (now : Moment) (entries : List Entry) (o : Output) : Output :=
  entries.foldl (fun o e => o.log now e []) o

/-- Opens a log file. It is there from then on. -/
def openFile (place : Path) (tree : Disk.Tree) : Except Disk.PathFault Disk.Tree :=
  if Disk.maxPath < place.toString.utf8ByteSize then .error ⟨place.toString, .nameTooLong⟩
  else if tree.isDirectory place.parts then .error ⟨place.toString, .isDirectory⟩
  else if tree.isFile place.parts then .ok tree
  else .ok (tree.write place.parts (.file []))

/-- Sends the log to a file in a directory, which is made if need be, and to the console if so
wanted. Gives the path of the file. -/
def setUp (now : Moment) (here : Path) (directory? : Option Path) (level : Level)
    (console : Bool) (o : Output) : Except SetUpError (Path × Output) := do
  let directory := directory?.getD (here.join (Path.ofString directoryName))
  let tree ← (o.tree.makeDirectories here directory).mapError .path
  match now.toUtc? with
  | none => throw .clock
  | some today =>
    let file := directory.join ⟨.relative, [fileName today.date]⟩
    let place := here.resolve file
    let tree ← (openFile place tree).mapError .path
    let o : Output := { o with tree, sink? := some ⟨level, some place.parts, console⟩ }
    return (file, o.log now ⟨rootLogger, .info, "Writing logs to " ++ file.toString⟩ [])

/-- Sends the log to the console only. -/
def setUpConsole (o : Output) : Output :=
  { o with sink? := some ⟨.info, none, true⟩ }

end Output
end Ancestry.Log
