/-!
Records: the ancestors that a search reports.
-/

namespace Ancestry

/-- An ancestor file with its provide calls. -/
structure Record where
  /-- The last component of the path. -/
  name : String
  /-- The path of the file. -/
  source : String
  /-- The texts of its provide calls. -/
  provides : List String
  deriving DecidableEq, Repr

end Ancestry
