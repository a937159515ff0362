import Ancestry.Text.Lines
import Ancestry.Yaml.Cursor

/-!
Documents as they come in, in portions of characters. A fault shows when its portion comes in, and
that happens only when a reader comes so far. So a document is cut before the portion with its first
fault, and the fault stands at the cut.
-/

namespace Ancestry.Yaml

structure Intake where
  text : List Char
  /-- What stands at the end of the text, if it is not the end of the document. -/
  fault? : Option Error := none

/-- How many characters come in at once. -/
def portion : Nat := 4096

/-- Where the portion of a character begins. The first two portions come in together. -/
def portionStart (index : Nat) : Nat :=
  if index < 2 * portion then 0 else index / portion * portion

/-- Characters that a document may hold. -/
def isAllowed (c : Char) : Bool :=
  let n := c.toNat
  n = 9 || n = 10 || n = 13 || (0x20 ≤ n && n ≤ 0x7e) || n = 0x85 ||
    (0xa0 ≤ n && n ≤ 0xd7ff) || (0xe000 ≤ n && n ≤ 0xfffd) || 0x10000 ≤ n

namespace Intake

def cut (text : List Char) (start : Nat) (fault : Error) : Intake :=
  ⟨text.take start, some fault⟩

/-- The document of a text behind which `error?` was found. Bytes that are no text show before
characters of the same portion. -/
def ofDecoded (text : List Char) (error? : Option Text.Utf8.Error) : Intake :=
  let end' := portionStart text.length
  let strange? := text.zipIdx.find? fun e => !isAllowed e.1
  match strange?, error? with
  | none, none => ⟨text, none⟩
  | none, some e => cut text end' (.badText e)
  | some (c, index), none => cut text (portionStart index) (.character c index)
  | some (c, index), some e =>
    if portionStart index < end' then cut text (portionStart index) (.character c index)
    else cut text end' (.badText e)

/-- The document of a text. -/
def ofText (text : List Char) : Intake :=
  ofDecoded text none

/-- The document of bytes, with line feeds for all line breaks. -/
def ofBytes (bytes : List UInt8) : Intake :=
  let d := Text.Utf8.read bytes
  ofDecoded (Text.normalizeBreaks d.text) d.error?

end Intake
end Ancestry.Yaml
