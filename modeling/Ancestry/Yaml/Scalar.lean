import Ancestry.Yaml.Token

/-!
Scalars as they are written: plain, between quotes, or as indented blocks. Line ends inside a plain
or quoted scalar are folded: a single one is a blank, and of several all but the first stay.
-/

namespace Ancestry.Yaml

/-- The text of a line end and of those that follow it. -/
def folded (first : Char) (others : List Char) : List Char :=
  if first ≠ '\n' then first :: others
  else if others = [] then [' ']
  else others

/-! ### Quoted scalars -/

/-- The characters that stand for others after a backslash. -/
def escaped? : Char → Option Char
  | '0' => some '\x00'
  | 'a' => some '\x07'
  | 'b' => some '\x08'
  | 't' => some '\t'
  | '\t' => some '\t'
  | 'n' => some '\n'
  | 'v' => some '\x0b'
  | 'f' => some '\x0c'
  | 'r' => some '\r'
  | 'e' => some '\x1b'
  | ' ' => some ' '
  | '"' => some '"'
  | '\\' => some '\\'
  | '/' => some '/'
  | 'N' => some '\x85'
  | '_' => some '\xa0'
  | 'L' => some '\u2028'
  | 'P' => some '\u2029'
  | _ => none

/-- How many hexadecimal digits follow a letter after a backslash. -/
def escapeWidth? : Char → Option Nat
  | 'x' => some 2
  | 'u' => some 4
  | 'U' => some 8
  | _ => none

def hexValue? (c : Char) : Option Nat :=
  if c.isDigit then some (c.toNat - 48)
  else if 'a' ≤ c && c ≤ 'f' then some (c.toNat - 87)
  else if 'A' ≤ c && c ≤ 'F' then some (c.toNat - 55)
  else none

/-- The number that hexadecimal digits stand for. -/
def hexNumber (digits : List Char) : Nat :=
  digits.foldl (fun n c => n * 16 + (hexValue? c).getD 0) 0

/-- A problem in the scalar that began at `start`. -/
def quotedProblem (double : Bool) (start : Mark) (problem : String) (place : Cursor) : Error :=
  .problem (some (if double then "while scanning a double-quoted scalar"
    else "while scanning a quoted scalar")) (some start) problem (some place.mark)

/-- Empty lines and leading blanks inside a quoted scalar. A line that divides documents may not
stand there. -/
def quotedBreaks (start : Mark) : Nat → Cursor → Except Error (List Char × Cursor)
  | 0, c => .ok ([], c)
  | fuel + 1, c =>
    if atDivider c then
      .error (quotedProblem false start "found unexpected document separator" c)
    else
      let c := (c.span fun ch => ch = ' ' || ch = '\t').2
      match c.lineBreak? with
      | some (ch, c) => do
        let (more, c) ← quotedBreaks start fuel c
        .ok (ch :: more, c)
      | none => .ok ([], c)

/-- A character by its number, as an escape gives it. -/
def numberedChar (n : Nat) : Except Error Char :=
  if 0x80000000 ≤ n then .error (.badValue .characterTooLarge)
  else if 0x110000 ≤ n then .error (.badValue .noCharacter)
  else .ok (Text.charOfNumber n)

/-- Reads the rest of a quoted scalar up to its closing quote. -/
def quotedRest (double : Bool) (start : Mark) :
    Nat → Cursor → Except Error (List Char × Cursor)
  | 0, c => .ok ([], c)
  | fuel + 1, c => do
    match c.peek? with
    | none => .error (quotedProblem false start "found unexpected end of stream" c)
    | some ch =>
      if ch = ' ' || ch = '\t' || isBreak ch then
        let (blanks, c) := c.span fun ch => ch = ' ' || ch = '\t'
        match c.lineBreak? with
        | some (first, c) =>
          let (others, c) ← quotedBreaks start fuel c
          let (more, c) ← quotedRest double start fuel c
          .ok (folded first others ++ more, c)
        | none =>
          if c.peek?.isNone then
            .error (quotedProblem false start "found unexpected end of stream" c)
          else
            let (more, c) ← quotedRest double start fuel c
            .ok (blanks ++ more, c)
      else if !double && ch = '\'' then
        if c.peekAt? 1 = some '\'' then
          let (more, c) ← quotedRest double start fuel (c.skip 2)
          .ok ('\'' :: more, c)
        else .ok ([], c.next)
      else if double && ch = '"' then .ok ([], c.next)
      else if double && ch = '\\' then
        let c := c.next
        match c.peek? with
        | none => .error (quotedProblem true start ("found unknown escape character " ++ shown none) c)
        | some e =>
          match escaped? e, escapeWidth? e with
          | some r, _ =>
            let (more, c) ← quotedRest double start fuel c.next
            .ok (r :: more, c)
          | none, some width =>
            let c := c.next
            let digits := c.rest.take width
            match digits.find? (hexValue? · |>.isNone), decide (digits.length < width) with
            | none, false =>
              let r ← numberedChar (hexNumber digits)
              let (more, c) ← quotedRest double start fuel (c.skip width)
              .ok (r :: more, c)
            | bad, _ =>
              .error (quotedProblem true start ("expected escape sequence of " ++ toString width ++
                " hexadecimal numbers, but found " ++ shown bad) c)
          | none, none =>
            match c.lineBreak? with
            | some (_, c) =>
              let (others, c) ← quotedBreaks start fuel c
              let (more, c) ← quotedRest double start fuel c
              .ok (others ++ more, c)
            | none =>
              .error (quotedProblem true start ("found unknown escape character " ++ shown (some e)) c)
      else
        let (more, c) ← quotedRest double start fuel c.next
        .ok (ch :: more, c)

/-- Reads a quoted scalar from its opening quote on. -/
def quotedScalar (double : Bool) (c : Cursor) : Except Error (Token × Cursor) := do
  let (text, after) ← quotedRest double c.mark (2 * c.rest.length + 2) c.next
  .ok (⟨.scalar (String.ofList text) false, c.mark, after.mark⟩, after)

/-! ### Plain scalars -/

def isFlowMark (c : Char) : Bool :=
  c = ',' || c = '[' || c = ']' || c = '\x7b' || c = '\x7d'

/-- Whether a plain scalar stops before a character. -/
def plainStops (inFlow : Bool) (c : Char) (next : Option Char) : Bool :=
  atBlank (some c) ||
    (c = ':' && (atBlank next || (inFlow && (next.map isFlowMark).getD false))) ||
    (inFlow && (c = '?' || isFlowMark c))

/-- The characters of a plain scalar up to the next blank or mark. -/
def plainRun (inFlow : Bool) : List Char → List Char
  | [] => []
  | c :: rest => if plainStops inFlow c rest.head? then [] else c :: plainRun inFlow rest

/-- What stands between two runs of a plain scalar: blanks, or line ends. -/
structure PlainGap where
  text : List Char
  /-- Whether the gap reached a new line. -/
  newLine : Bool
  /-- Whether a line that divides documents was met. -/
  divided : Bool
  after : Cursor

/-- Empty lines and leading blanks between two runs of a plain scalar. -/
def plainBreaks : Nat → Cursor → List Char × Bool × Cursor
  | 0, c => ([], false, c)
  | fuel + 1, c =>
    let c := c.skipSpaces
    match c.lineBreak? with
    | none => ([], false, c)
    | some (ch, c) =>
      if atDivider c then ([ch], true, c)
      else
        let (more, divided, c) := plainBreaks fuel c
        (ch :: more, divided, c)

def plainGap (c : Cursor) : PlainGap :=
  let (blanks, c) := c.span (· = ' ')
  match c.lineBreak? with
  | none => ⟨blanks, false, false, c⟩
  | some (first, c) =>
    if atDivider c then ⟨[], true, true, c⟩
    else
      let (others, divided, c) := plainBreaks (c.rest.length + 1) c
      if divided then ⟨[], true, true, c⟩ else ⟨folded first others, true, false, c⟩

/-- A plain scalar: its text, where it ends, whether the reader stands on a new line, and what is
left. -/
structure PlainScalar where
  text : List Char
  stop : Mark
  newLine : Bool
  after : Cursor

/-- Reads runs and gaps. Outside of flow collections each new line must be indented by at least
`indent`. -/
def plainRuns (inFlow : Bool) (indent : Int) (gap : List Char) (last : PlainScalar) :
    Nat → Cursor → PlainScalar
  | 0, _ => last
  | fuel + 1, c =>
    if c.peek? = some '#' then { last with after := c }
    else
      match plainRun inFlow c.rest with
      | [] => { last with after := c }
      | run =>
        let c := c.skip run.length
        let g := plainGap c
        let last : PlainScalar := ⟨last.text ++ gap ++ run, c.mark, g.newLine, g.after⟩
        if g.text = [] || g.divided || g.after.peek? = some '#' ||
            (!inFlow && g.after.mark.column < indent) then last
        else plainRuns inFlow indent g.text last fuel g.after

def plainScalar (inFlow : Bool) (indent : Int) (c : Cursor) : PlainScalar :=
  plainRuns inFlow indent [] ⟨[], c.mark, false, c⟩ (c.rest.length + 1) c

/-! ### Block scalars -/

/-- What becomes of the line ends behind a block scalar. -/
inductive Chomping where
  | strip
  | clip
  | keep
  deriving DecidableEq, Repr

def blockProblem (start : Mark) (problem : String) (c : Cursor) : Error :=
  .problem (some "while scanning a block scalar") (some start) problem (some c.mark)

def chomping? : Option Char → Option Chomping
  | some '+' => some .keep
  | some '-' => some .strip
  | _ => none

/-- Reads a digit that gives the indentation. -/
def indentDigit (start : Mark) (c : Cursor) : Except Error (Option Nat × Cursor) :=
  match c.peek? with
  | some ch =>
    if ch = '0' then
      .error (blockProblem start "expected indentation indicator in the range 1-9, but found 0" c)
    else if ch.isDigit then .ok (some (ch.toNat - 48), c.next)
    else .ok (none, c)
  | none => .ok (none, c)

/-- Reads what follows the mark of a block scalar on its line. -/
def blockHeader (start : Mark) (c : Cursor) : Except Error (Chomping × Option Nat × Cursor) := do
  let (chomping, width, c) ← match chomping? c.peek? with
    | some chomping => do
      let (width, c) ← indentDigit start c.next
      pure (chomping, width, c)
    | none => do
      let (width, c) ← indentDigit start c
      match width, chomping? c.peek? with
      | some _, some chomping => pure (chomping, width, c.next)
      | _, _ => pure (Chomping.clip, width, c)
  if !atSpace c.peek? then
    .error (blockProblem start
      ("expected chomping or indentation indicators, but found " ++ shown c.peek?) c)
  else
    let c := c.skipSpaces
    let c := if c.peek? = some '#' then c.skipLine else c
    if !atLineEnd c.peek? then
      .error (blockProblem start
        ("expected a comment or a line break, but found " ++ shown c.peek?) c)
    else .ok (chomping, width, (c.lineBreak?.map (·.2)).getD c)

/-- Skips blanks up to a column. -/
def skipIndent (indent : Nat) (c : Cursor) : Cursor :=
  c.skip (min (indent - c.mark.column) (c.rest.takeWhile (· = ' ')).length)

/-- Empty lines in front of the first line of a block scalar, and the largest indentation met. -/
def blockLead (widest : Nat) : Nat → Cursor → List Char × Nat × Cursor
  | 0, c => ([], widest, c)
  | fuel + 1, c =>
    let c := c.skipSpaces
    let widest := max widest c.mark.column
    match c.lineBreak? with
    | none => ([], widest, c)
    | some (ch, c) =>
      let (more, widest, c) := blockLead widest fuel c
      (ch :: more, widest, c)

/-- Empty lines between two lines of a block scalar. -/
def blockBreaks (indent : Nat) : Nat → Cursor → List Char × Cursor
  | 0, c => ([], c)
  | fuel + 1, c =>
    let c := skipIndent indent c
    match c.lineBreak? with
    | none => ([], c)
    | some (ch, c) =>
      let (more, c) := blockBreaks indent fuel c
      (ch :: more, c)

/-- The lines of a block scalar. `breaks` are the empty lines in front of the next one. -/
def blockLines (fold : Bool) (indent : Nat) (breaks : List Char) :
    Nat → Cursor → List Char × List Char × List Char × Cursor
  | 0, c => ([], [], breaks, c)
  | fuel + 1, c =>
    let (line, after) := c.span fun ch => !isBreak ch
    let startsBlank := line.head? = some ' ' || line.head? = some '\t'
    let (lineEnd, after) := match after.lineBreak? with
      | some (ch, after) => ([ch], after)
      | none => ([], after)
    let (next, after) := blockBreaks indent (after.rest.length + 1) after
    if after.mark.column = indent && after.peek?.isSome then
      let nextBlank := after.peek? = some ' ' || after.peek? = some '\t'
      let between :=
        if fold && lineEnd = ['\n'] && !startsBlank && !nextBlank then
          (if next = [] then [' '] else [])
        else lineEnd
      let (text, lineEnd, next, after) := blockLines fold indent next fuel after
      (breaks ++ line ++ between ++ text, lineEnd, next, after)
    else (breaks ++ line, lineEnd, next, after)

/-- Reads a block scalar from its mark on. -/
def blockScalar (fold : Bool) (indent : Int) (c : Cursor) : Except Error (Token × Cursor) := do
  let start := c.mark
  let (chomping, width, c) ← blockHeader start c.next
  let least := (max (indent + 1) 1).toNat
  let fuel := c.rest.length + 1
  let (breaks, column, c) := match width with
    | none =>
      let (breaks, widest, c) := blockLead 0 fuel c
      (breaks, max least widest, c)
    | some n =>
      let column := least + n - 1
      let (breaks, c) := blockBreaks column fuel c
      (breaks, column, c)
  let (text, lineEnd, tail, c) :=
    if c.mark.column = column && c.peek?.isSome then blockLines fold column breaks fuel c
    else ([], [], breaks, c)
  let text := match chomping with
    | .strip => text
    | .clip => text ++ lineEnd
    | .keep => text ++ lineEnd ++ tail
  .ok (⟨.scalar (String.ofList text) false, start, c.mark⟩, c)

end Ancestry.Yaml
