import Ancestry.Session.Search

/-!
Calls: the questions that can be put to a session, and their answers where nothing is done side by side.
-/

namespace Ancestry

/-- What can be asked of a session. -/
inductive Call where
  | text (path : String)
  | provides (path : String)
  | importers (name : String)
  | ancestors (name : String)
  | ancestorsOfFile (path : String)
  deriving DecidableEq, Repr

/-- What a call returns. -/
inductive Answer where
  | text (text : String)
  | calls (calls : List String)
  | paths (paths : List String)
  | records (records : List Record)
  deriving DecidableEq, Repr

/-- Answers a call while nothing else happens, with the files of a search visited one after another. -/
def Session.call (files : Files) (call : Call) (s : Session) : Answer × Session :=
  match call with
  | .text path => (s.text files path).map .text id
  | .provides path => (s.provides files path).map .calls id
  | .importers name => (s.importersOf files name).map .paths id
  | .ancestors name => (s.ancestors files name).map .records id
  | .ancestorsOfFile path => (s.ancestorsOfFile files path).map .records id

end Ancestry
