import Ancestry.Text.Utf8
import Ancestry.Yaml.Fault

/-!
Places in a document, and the faults that are reported with them.
-/

namespace Ancestry.Yaml

/-- A place in a document, counted in characters, lines and columns from zero. -/
structure Mark where
  index : Nat := 0
  line : Nat := 0
  column : Nat := 0
  deriving DecidableEq, Repr

/-- Characters that end a line. -/
def isBreak (c : Char) : Bool :=
  c = '\n' || c = '\x85' || c = '\u2028' || c = '\u2029'

/-- The place behind a character. A byte order mark takes no column. -/
def Mark.step (m : Mark) (c : Char) : Mark :=
  if isBreak c then ⟨m.index + 1, m.line + 1, 0⟩
  else if c = '\ufeff' then { m with index := m.index + 1 }
  else { m with index := m.index + 1, column := m.column + 1 }

/-- What is left of a document, and where that begins. -/
structure Cursor where
  rest : List Char
  mark : Mark := {}

namespace Cursor

def peek? (c : Cursor) : Option Char :=
  c.rest.head?

def peekAt? (n : Nat) (c : Cursor) : Option Char :=
  c.rest[n]?

def next (c : Cursor) : Cursor :=
  match c.rest with
  | [] => c
  | ch :: rest => ⟨rest, c.mark.step ch⟩

def skip : Nat → Cursor → Cursor
  | 0, c => c
  | n + 1, c => skip n c.next

/-- The longest beginning of characters with a property, and what follows it. -/
def span (p : Char → Bool) (c : Cursor) : List Char × Cursor :=
  let run := c.rest.takeWhile p
  (run, c.skip run.length)

def skipSpaces (c : Cursor) : Cursor :=
  (c.span (· = ' ')).2

/-- The rest of the line without its end. -/
def skipLine (c : Cursor) : Cursor :=
  (c.span fun ch => !isBreak ch).2

/-- Reads the end of a line. All but the two separators of lines and paragraphs stand for a line
feed. -/
def lineBreak? (c : Cursor) : Option (Char × Cursor) :=
  match c.peek? with
  | some ch =>
    if ch = '\n' || ch = '\x85' then some ('\n', c.next)
    else if isBreak ch then some (ch, c.next)
    else none
  | none => none

end Cursor

/-- Whether nothing, or a line end, is next. -/
def atLineEnd : Option Char → Bool
  | none => true
  | some c => isBreak c

/-- Whether nothing, a line end or a blank is next. -/
def atSpace : Option Char → Bool
  | none => true
  | some c => isBreak c || c = ' '

/-- Whether nothing, a line end, a blank or a tab is next. -/
def atBlank : Option Char → Bool
  | none => true
  | some c => isBreak c || c = ' ' || c = '\t'

/-- A character as messages show it; the end of the document counts as the null character. -/
def shown (c : Option Char) : String :=
  Text.quoted (String.singleton (c.getD '\x00'))

/-- Whether a line that divides documents begins here. -/
def atDivider (c : Cursor) : Bool :=
  ("---".toList.isPrefixOf c.rest || "...".toList.isPrefixOf c.rest) && atBlank (c.peekAt? 3)

/-- Why a text is no document. -/
inductive Error where
  /-- A character that no document may hold, and its place. -/
  | character (c : Char) (index : Nat)
  /-- A problem and its place, in the course of something that began at another place. -/
  | problem (context : Option String) (start : Option Mark) (what : String)
      (mark : Option Mark)
  /-- Bytes that are no text. -/
  | badText (error : Text.Utf8.Error)
  /-- A scalar that is said to be of a kind and is no value of it. -/
  | badValue (fault : ValueFault)
  deriving DecidableEq, Repr

def Mark.text (name : String) (m : Mark) : String :=
  "  in \"" ++ name ++ "\", line " ++ toString (m.line + 1) ++ ", column " ++
    toString (m.column + 1)

/-- The wording of a fault in the document of a given name. The place where a context began is left
out if the problem is at the same place. -/
def Error.message (name : String) : Error → String
  | character c index =>
    "unacceptable character #x" ++ Text.hexDigits 4 c.toNat ++
      ": special characters are not allowed\n  in \"" ++ name ++ "\", position " ++ toString index
  | problem context start what mark =>
    let samePlace := match start, mark with
      | some a, some b => a.line = b.line && a.column = b.column
      | _, _ => false
    "\n".intercalate <| context.toList ++
      (if samePlace then [] else (start.map (Mark.text name)).toList) ++
      [what] ++ (mark.map (Mark.text name)).toList
  | badText error => error.message
  | badValue fault => fault.message

end Ancestry.Yaml
