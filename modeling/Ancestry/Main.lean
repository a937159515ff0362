import Ancestry.Command.Arguments
import Ancestry.Command.Run
import Ancestry.Command.Snapshot
import Ancestry.Yaml.Meaning

/-!
The program. It reads its surroundings from standard input, writes the console to standard error and
the log file to standard output.
-/

namespace Ancestry

/-- The lines of a stream without their line feeds. -/
partial def readLines (input : IO.FS.Stream) : IO (List String) := do
  let line ← input.getLine
  if line.isEmpty then return []
  let line := if line.toList.getLast? = some '\n' then String.ofList line.toList.dropLast else line
  return line :: (← readLines input)

/-- The text of the log file of a run. -/
def logText (output : Log.Output) : String :=
  match output.sink?.bind (·.file?) with
  | none => ""
  | some place =>
    match output.tree.text place with
    | .ok text => String.ofList text
    | .error _ => ""

/-- What the program relies on: settings are written in YAML, and the stack has a thousand levels, a few
of which are taken. -/
def services : Command.Services where
  read := Yaml.Value.ofBytes
  levels := 980
  serve _ := none

/-- Runs the program on a snapshot and gives the exit code. -/
def runOn (options : Command.Options) (s : Command.Snapshot) : IO UInt32 := do
  let trace := Command.run services s.now s.here options s.tree
  for text in trace.output.console do
    IO.eprintln text
  IO.print (logText trace.output)
  match trace.error? with
  | none => return 0
  | some e =>
    IO.eprintln e.message
    return 1

end Ancestry

def main (arguments : List String) : IO UInt32 := do
  match Ancestry.Command.Invocation.ofArguments arguments with
  | .help =>
    IO.print Ancestry.Command.help
    return 0
  | .misuse e =>
    IO.eprint e.text
    return 2
  | .run options =>
    match Ancestry.Command.Snapshot.ofLines? (← Ancestry.readLines (← IO.getStdin)) with
    | some s => Ancestry.runOn options s
    | none =>
      IO.eprintln "no snapshot of the surroundings on standard input"
      return 1
