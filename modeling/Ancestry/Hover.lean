import Ancestry.Record
import Ancestry.Source.Provide

/-!
What an editor shows for the ancestors of a component: an indicator on the first line and a hover
text in Markdown, with one section per ancestor and one bullet per entry.
-/

namespace Ancestry

/-- The indicator and its hover text. -/
structure Display where
  indicator : String
  line : Nat
  hover : String
  ancestorCount : Nat
  deriving DecidableEq, Repr

namespace Hover
open Ancestry.Source

def indicator : String :=
  "Ancestors provide values 💉"

def header : String :=
  "**" ++ indicator ++ ":**\n"

/-- The bullet of one entry. -/
def bullet (e : Entry) : String :=
  if e.isValid then "- **" ++ e.key ++ "**: " ++ e.value
  else "- *" ++ Entry.unreadable.key ++ "*"

def bullets (entries : List Entry) : String :=
  "\n\n".intercalate (entries.map bullet)

/-- The bullets of one call. -/
def callText (text : String) : String :=
  bullets (provideEntries text)

/-- The section of one ancestor. -/
def sectionText (r : Record) : String :=
  let body := "\n\n".intercalate (r.provides.map callText)
  "**Provides:**\n" ++ (if body = "" then "(no values)" else body) ++ "\n\n" ++ r.name ++
    "\n*(at " ++ r.source ++ ")*"

/-- The header and the sections of all ancestors. -/
def text (records : List Record) : String :=
  "\n\n---\n\n".intercalate (header :: records.map sectionText)

/-- There is nothing to show where there are no ancestors. -/
def display? (records : List Record) : Option Display :=
  if records = [] then none
  else some ⟨indicator, 0, text records, records.length⟩

end Hover
end Ancestry
