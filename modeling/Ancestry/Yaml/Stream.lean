import Ancestry.Yaml.Intake
import Ancestry.Yaml.Label

/-!
The tokens of a document. The indentation of block collections is made explicit: a token stands at
the start and at the end of each of them. A key in front of a colon is recognised by the colon, so
its token is put in afterwards, at the place where the key began.

Tokens are read when they are asked for, and no further than it takes to know that no key begins
with the next one. So of two faults in a document the one counts that a reader meets first.
-/

namespace Ancestry.Yaml

/-- A place where a key may have begun. -/
structure PossibleKey where
  /-- How many tokens of the document stand before it. -/
  number : Nat
  /-- Whether nothing but a key can stand there. -/
  required : Bool
  mark : Mark
  deriving DecidableEq, Repr

/-- The reader of tokens. -/
structure Reader where
  cursor : Cursor
  /-- What stands at the end of the text, if it is not the end of the document. -/
  fault? : Option Error := none
  /-- How many characters the text has. -/
  size : Nat
  /-- The tokens that are read and not yet taken. -/
  tokens : List Token := []
  /-- How many tokens were taken. -/
  taken : Nat := 0
  /-- Whether the last token of the document is read. -/
  done : Bool := false
  /-- How many more flow collections were opened than closed. -/
  flowLevel : Int := 0
  /-- The column of the innermost block collection, and those of the outer ones. -/
  indent : Int := -1
  indents : List Int := []
  /-- Whether a key may begin here. -/
  keyAllowed : Bool := true
  /-- Possible keys by the number of open flow collections. -/
  keys : List (Int × PossibleKey) := []

namespace Reader

def inFlow (r : Reader) : Bool :=
  r.flowLevel ≠ 0

def push (kind : TokenKind) (start stop : Mark) (r : Reader) : Reader :=
  { r with tokens := r.tokens ++ [⟨kind, start, stop⟩] }

def missingColon (key : PossibleKey) (r : Reader) : Error :=
  .problem (some "while scanning a simple key") (some key.mark) "could not find expected ':'"
    (some r.cursor.mark)

/-- Drops the possible key of the innermost collection. -/
def removeKey (r : Reader) : Except Error Reader :=
  match r.keys.lookup r.flowLevel with
  | some key =>
    if key.required then .error (r.missingColon key)
    else .ok { r with keys := r.keys.filter (·.1 ≠ r.flowLevel) }
  | none => .ok r

/-- Notes that a key may begin here. -/
def saveKey (r : Reader) : Except Error Reader :=
  if r.keyAllowed then do
    let required := !r.inFlow && r.indent = r.cursor.mark.column
    let r ← r.removeKey
    let key : PossibleKey := ⟨r.taken + r.tokens.length, required, r.cursor.mark⟩
    .ok { r with keys := (r.flowLevel, key) :: r.keys }
  else .ok r

/-- A key must end on its line and within 1024 characters. -/
def isStale (r : Reader) (key : PossibleKey) : Bool :=
  key.mark.line ≠ r.cursor.mark.line || 1024 < r.cursor.mark.index - key.mark.index

def dropStaleKeys (r : Reader) : Except Error Reader :=
  match (r.keys.map (·.2)).find? fun key => r.isStale key && key.required with
  | some key => .error (r.missingColon key)
  | none => .ok { r with keys := r.keys.filter fun e => !r.isStale e.2 }

/-- Ends the block collections that are indented deeper than a column. -/
def unwind (column : Int) (r : Reader) : Reader :=
  if r.inFlow then r
  else
    let rec close (indent : Int) (indents : List Int) : Nat × Int × List Int :=
      match indents with
      | [] => (0, indent, [])
      | outer :: rest =>
        if column < indent then
          let (n, indent, indents) := close outer rest
          (n + 1, indent, indents)
        else (0, indent, outer :: rest)
    let (n, indent, indents) := close r.indent r.indents
    let mark := r.cursor.mark
    { r with indent, indents, tokens := r.tokens ++ List.replicate n ⟨.blockEnd, mark, mark⟩ }

/-- Skips blanks, comments and line ends. A key may begin on a new line. -/
def skipBlanks : Nat → Reader → Reader
  | 0, r => r
  | fuel + 1, r =>
    let c := r.cursor.skipSpaces
    let c := if c.peek? = some '#' then c.skipLine else c
    match c.lineBreak? with
    | none => { r with cursor := c }
    | some (_, c) =>
      skipBlanks fuel { r with cursor := c, keyAllowed := r.keyAllowed || !r.inFlow }

/-- A token of `width` characters at the cursor. -/
def mark (kind : TokenKind) (width : Nat) (r : Reader) : Reader :=
  let after := r.cursor.skip width
  { r.push kind r.cursor.mark after.mark with cursor := after }

def blockProblem (problem : String) (r : Reader) : Error :=
  .problem none none problem (some r.cursor.mark)

/-- Begins a block collection at a column, if it is deeper than the one around it. -/
def addIndent (column : Nat) (r : Reader) : Option Reader :=
  if r.indent < column then
    some { r with indents := r.indent :: r.indents, indent := column }
  else none

/-- Begins a block collection at the cursor, if it is deeper than the one around it. -/
def openBlock (kind : TokenKind) (r : Reader) : Reader :=
  let m := r.cursor.mark
  ((r.addIndent m.column).map (push kind m m)).getD r

/-- The end of all block collections, before a line that divides documents. -/
def leaveBlocks (r : Reader) : Except Error Reader := do
  let r ← (r.unwind (-1)).removeKey
  .ok { r with keyAllowed := false }

def divider (kind : TokenKind) (r : Reader) : Except Error Reader := do
  .ok ((← r.leaveBlocks).mark kind 3)

def openFlow (kind : TokenKind) (r : Reader) : Except Error Reader := do
  let r ← r.saveKey
  .ok ({ r with flowLevel := r.flowLevel + 1, keyAllowed := true }.mark kind 1)

def closeFlow (kind : TokenKind) (r : Reader) : Except Error Reader := do
  let r ← r.removeKey
  .ok ({ r with flowLevel := r.flowLevel - 1, keyAllowed := false }.mark kind 1)

def flowEntry (r : Reader) : Except Error Reader := do
  let r ← { r with keyAllowed := true }.removeKey
  .ok (r.mark .flowEntry 1)

def blockEntry (r : Reader) : Except Error Reader := do
  if !r.inFlow && !r.keyAllowed then .error (r.blockProblem "sequence entries are not allowed here")
  else
    let r := if r.inFlow then r else r.openBlock .blockSequenceStart
    let r ← { r with keyAllowed := true }.removeKey
    .ok (r.mark .blockEntry 1)

def explicitKey (r : Reader) : Except Error Reader := do
  if !r.inFlow && !r.keyAllowed then .error (r.blockProblem "mapping keys are not allowed here")
  else
    let r := if r.inFlow then r else r.openBlock .blockMappingStart
    let r ← { r with keyAllowed := !r.inFlow }.removeKey
    .ok (r.mark .key 1)

/-- A colon. The key before it gets its token now, and so does a mapping that begins with it. -/
def valueMark (r : Reader) : Except Error Reader := do
  match r.keys.lookup r.flowLevel with
  | some key =>
    let r := { r with keys := r.keys.filter (·.1 ≠ r.flowLevel), keyAllowed := false }
    let before := r.tokens.take (key.number - r.taken)
    let after := r.tokens.drop (key.number - r.taken)
    let keyToken : Token := ⟨.key, key.mark, key.mark⟩
    let startToken : Token := ⟨.blockMappingStart, key.mark, key.mark⟩
    let r := match r.inFlow, r.addIndent key.mark.column with
      | false, some r => { r with tokens := before ++ startToken :: keyToken :: after }
      | _, _ => { r with tokens := before ++ keyToken :: after }
    .ok (r.mark .value 1)
  | none =>
    if !r.inFlow && !r.keyAllowed then .error (r.blockProblem "mapping values are not allowed here")
    else
      let r := if r.inFlow then r else r.openBlock .blockMappingStart
      let r ← { r with keyAllowed := !r.inFlow }.removeKey
      .ok (r.mark .value 1)

/-- A token that may be a key, read by `read`. -/
def keyLike (read : Cursor → Except Error (Token × Cursor)) (r : Reader) : Except Error Reader := do
  let r ← r.saveKey
  let (token, after) ← read r.cursor
  .ok { r with keyAllowed := false, tokens := r.tokens ++ [token], cursor := after }

def labelToken (what : String) (kind : String → TokenKind) (c : Cursor) :
    Except Error (Token × Cursor) := do
  let (name, after) ← label what c
  .ok (⟨kind name, c.mark, after.mark⟩, after)

def block (fold : Bool) (r : Reader) : Except Error Reader := do
  let r ← { r with keyAllowed := true }.removeKey
  let (token, after) ← blockScalar fold r.indent r.cursor
  .ok { r with tokens := r.tokens ++ [token], cursor := after }

def plain (r : Reader) : Except Error Reader := do
  let r ← r.saveKey
  let s := plainScalar r.inFlow (r.indent + 1) r.cursor
  .ok { r.push (.scalar (String.ofList s.text) true) r.cursor.mark s.stop with
    keyAllowed := s.newLine, cursor := s.after }

/-- Whether a plain scalar may begin with a character. -/
def startsPlain (inFlow : Bool) (c : Char) (next : Option Char) : Bool :=
  !(atBlank (some c) || "-?:,[]\x7b\x7d#&*!|>'\"%@`".toList.contains c) ||
    (!atBlank next && (c = '-' || (!inFlow && (c = '?' || c = ':'))))

/-- Reads the token that begins with a character. -/
def token (c : Char) (r : Reader) : Except Error Reader :=
  let next := r.cursor.peekAt? 1
  let inFirstColumn := r.cursor.mark.column = 0
  let isMark := r.inFlow || atBlank next
  if c = '%' && inFirstColumn then do
    let r ← r.leaveBlocks
    let (token, after) ← directiveToken r.cursor
    .ok { r with tokens := r.tokens ++ [token], cursor := after }
  else if c = '-' && inFirstColumn && atDivider r.cursor then r.divider .documentStart
  else if c = '.' && inFirstColumn && atDivider r.cursor then r.divider .documentEnd
  else if c = '[' then r.openFlow .flowSequenceStart
  else if c = '\x7b' then r.openFlow .flowMappingStart
  else if c = ']' then r.closeFlow .flowSequenceEnd
  else if c = '\x7d' then r.closeFlow .flowMappingEnd
  else if c = ',' then r.flowEntry
  else if c = '-' && atBlank next then r.blockEntry
  else if c = '?' && isMark then r.explicitKey
  else if c = ':' && isMark then r.valueMark
  else if c = '*' then r.keyLike (labelToken "alias" .reference)
  else if c = '&' then r.keyLike (labelToken "anchor" .anchor)
  else if c = '!' then r.keyLike tagToken
  else if c = '|' && !r.inFlow then r.block false
  else if c = '>' && !r.inFlow then r.block true
  else if c = '\'' then r.keyLike (quotedScalar false)
  else if c = '"' then r.keyLike (quotedScalar true)
  else if startsPlain r.inFlow c next then r.plain
  else
    .error (.problem (some "while scanning for the next token") none
      ("found character " ++ shown (some c) ++ " that cannot start any token")
      (some r.cursor.mark))

/-- Reads the next tokens from the text at hand. -/
def readOn (r : Reader) : Except Error Reader := do
  let r ← (r.skipBlanks (r.size + 1)).dropStaleKeys
  let r := r.unwind r.cursor.mark.column
  match r.cursor.peek? with
  | none =>
    let r ← r.leaveBlocks
    .ok { r.push .streamEnd r.cursor.mark r.cursor.mark with keys := [], done := true }
  | some c => r.token c

/-- Whether a fault lies at the end of a text of so many characters. -/
def isAtEnd (size : Nat) : Error → Bool
  | .problem _ _ _ (some mark) => size ≤ mark.index
  | _ => false

/-- Reads the next tokens. At the end of the text the fault that stands there shows. -/
def fetch (r : Reader) : Except Error Reader :=
  match r.fault?, r.readOn with
  | some fault, .ok next => if next.size ≤ next.cursor.mark.index then .error fault else .ok next
  | some fault, .error e => .error (if isAtEnd r.size e then fault else e)
  | none, result => result

/-- Whether a key may begin with the next token, so that more has to be read. -/
def keyPending (r : Reader) : Bool :=
  r.keys.any (·.2.number = r.taken)

/-- Reads until the next token is certain. Each step of the fuel reads a character at least. -/
def settleFrom : Nat → Reader → Except Error Reader
  | 0, r => .ok r
  | fuel + 1, r => do
    if r.done then return r
    if r.tokens = [] then settleFrom fuel (← r.fetch)
    else
      let r ← r.dropStaleKeys
      if r.keyPending then settleFrom fuel (← r.fetch) else return r

def settle (r : Reader) : Except Error Reader :=
  r.settleFrom (r.size + 2)

/-- The reader at the start of a document. -/
def ofIntake (document : Intake) : Reader :=
  let start : Cursor := ⟨document.text, {}⟩
  { cursor := if start.peek? = some '\ufeff' then start.next else start
    fault? := document.fault?
    size := document.text.length }

end Reader
end Ancestry.Yaml
