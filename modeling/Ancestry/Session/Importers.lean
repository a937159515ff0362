import Ancestry.Session.Statistics
import Ancestry.Session.Table

/-!
The importers of components, found on demand and kept by component name. Every removal raises the
epoch, and a list that was found in an older epoch is not kept.
-/

namespace Ancestry

structure Importers where
  lists : Table (List String)
  epoch : Nat
  stats : Statistics

namespace Importers

def empty : Importers :=
  ⟨.empty, 0, {}⟩

def countHit (g : Importers) : Importers :=
  { g with stats.importerHits := g.stats.importerHits + 1 }

def countMiss (g : Importers) : Importers :=
  { g with stats.importerMisses := g.stats.importerMisses + 1 }

/-- Ends a search for the importers of `name` that began in `epoch`. A list that was overtaken loses
the files that are gone and is not kept. -/
def settle (candidates : List String) (name : String) (epoch : Nat) (found : List String)
    (g : Importers) : List String × Importers :=
  if g.epoch = epoch then (found, { g with lists := g.lists.insert name found })
  else (found.filter (· ∈ candidates), g)

/-- Drops the list of one component. -/
def invalidate (name : String) (g : Importers) : Importers :=
  { g with lists := g.lists.erase name, epoch := g.epoch + 1 }

/-- Removes a file from every list. -/
def removeFile (path : String) (g : Importers) : Importers :=
  { g with lists := g.lists.mapValues (·.filter (· ≠ path)), epoch := g.epoch + 1 }

/-- Drops every list. -/
def clear (g : Importers) : Importers :=
  { g with lists := .empty, epoch := g.epoch + 1 }

end Importers
end Ancestry
