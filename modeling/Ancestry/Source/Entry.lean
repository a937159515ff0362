/-!
Entries: what a component provides, as pairs of a key and a value.
-/

namespace Ancestry.Source

/-- One provided value under its key. -/
structure Entry where
  key : String
  value : String
  deriving DecidableEq, Repr

namespace Entry

/-- What stands for a call whose argument cannot be read. -/
def unreadable : Entry :=
  ⟨"(Non-valid provide syntax found)", ""⟩

/-- Every entry is valid but the one that stands for an unreadable argument. -/
def isValid (e : Entry) : Bool :=
  e ≠ unreadable

end Entry
end Ancestry.Source
