import Ancestry.Calendar
import Ancestry.Json
import Ancestry.Log.Entry

/-!
Lines of the log. In a file an entry is a JSON object on one line, with the time in universal time;
on the console it is plain text.
-/

namespace Ancestry.Log
open Ancestry.Calendar

/-- A failure that an entry reports: its kind and its words. -/
structure Failure where
  kind : String
  text : String
  deriving DecidableEq, Repr

def Failure.shown (f : Failure) : String :=
  if f.text = "" then f.kind else f.kind ++ ": " ++ f.text

/-- A moment in universal time, if the calendar knows it there. -/
def timestamp? (now : Moment) : Option String :=
  now.toUtc?.map fun m => Moment.text "T" { m with offset? := none } ++ "Z"

/-- The members of the object for an entry. An extra one of a name that is there takes its place. -/
def members (timestamp : String) (e : Entry) (failure? : Option Failure)
    (extra : List (String × Json)) : List (String × Json) :=
  let own := [("timestamp", Json.text timestamp), ("level", .text e.level.name),
    ("logger", .text e.logger), ("message", .text e.message)]
  let failure := match failure? with
    | none => []
    | some f => [("exception", Json.text f.shown)]
  extra.foldl Json.putMember (own ++ failure)

/-- The line for an entry in a file, if the time can be written. -/
def fileLine? (now : Moment) (e : Entry) (failure? : Option Failure)
    (extra : List (String × Json)) : Option String :=
  (timestamp? now).map fun timestamp => (Json.object (members timestamp e failure? extra)).line

/-- The text for an entry on the console. -/
def consoleText (now : Moment) (e : Entry) : String :=
  let stamp := Moment.text " " { now with micro := 0, offset? := none }
  " - ".intercalate [stamp, e.logger, e.level.name, e.message]

end Ancestry.Log
