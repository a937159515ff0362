import Ancestry.Text.Utf8
import Ancestry.Yaml.Scalar

/-!
Anchors, aliases, tags and directives.
-/

namespace Ancestry.Yaml

/-- Characters of names. -/
def isNameChar (c : Char) : Bool :=
  c.isAlphanum || c = '-' || c = '_'

def problemAt (context : String) (start : Mark) (problem : String) (c : Cursor) : Error :=
  .problem (some context) (some start) problem (some c.mark)

/-- Whether an anchor or an alias may end here. -/
def endsLabel (c : Option Char) : Bool :=
  atBlank c || "?:,]\x7d%@`".toList.contains (c.getD ' ')

/-- Reads the name of an anchor or an alias behind its mark. -/
def label (what : String) (c : Cursor) : Except Error (String × Cursor) :=
  let start := c.mark
  let complain (c : Cursor) : Error :=
    problemAt ("while scanning an " ++ what) start
      ("expected alphabetic or numeric character, but found " ++ shown c.peek?) c
  let (name, c) := c.next.span isNameChar
  if name = [] then .error (complain c)
  else if !endsLabel c.peek? then .error (complain c)
  else .ok (String.ofList name, c)

/-! ### Tags -/

def isTagChar (c : Char) : Bool :=
  c.isAlphanum || "-;/?:@&=+$,_.!~*'()[]%".toList.contains c

/-- Reads bytes that are written as a percent sign and two hexadecimal digits each. -/
def escapedBytes (what : String) (start : Mark) :
    Nat → Cursor → Except Error (List UInt8 × Cursor)
  | 0, c => .ok ([], c)
  | fuel + 1, c =>
    if c.peek? = some '%' then
      let c := c.next
      let digits := c.rest.take 2
      match digits.find? (hexValue? · |>.isNone), decide (digits.length < 2) with
      | none, false => do
        let (more, c) ← escapedBytes what start fuel (c.skip 2)
        .ok ((hexNumber digits).toUInt8 :: more, c)
      | bad, _ =>
        .error (problemAt ("while scanning a " ++ what) start
          ("expected URI escape sequence of 2 hexadecimal numbers, but found " ++ shown bad) c)
    else .ok ([], c)

/-- Reads the rest of a tag. -/
def tagRest (what : String) (start : Mark) : Nat → Cursor → Except Error (List Char × Cursor)
  | 0, c => .ok ([], c)
  | fuel + 1, c =>
    match c.peek? with
    | none => .ok ([], c)
    | some ch =>
      if ch = '%' then do
        let (bytes, after) ← escapedBytes what start fuel c
        match Text.Utf8.text bytes with
        | .error e =>
          .error (problemAt ("while scanning a " ++ what) start e.message c)
        | .ok chars =>
          let (more, after) ← tagRest what start fuel after
          .ok (chars ++ more, after)
      else if isTagChar ch then do
        let (more, after) ← tagRest what start fuel c.next
        .ok (ch :: more, after)
      else .ok ([], c)

def tagUri (what : String) (start : Mark) (c : Cursor) : Except Error (String × Cursor) := do
  let (text, after) ← tagRest what start (2 * c.rest.length + 1) c
  if c.mark = after.mark then
    .error (problemAt ("while parsing a " ++ what) start
      ("expected URI, but found " ++ shown after.peek?) after)
  else .ok (String.ofList text, after)

/-- Reads the short name in front of a tag, with its exclamation marks. -/
def tagHandle (what : String) (start : Mark) (c : Cursor) : Except Error (String × Cursor) :=
  let complain (c : Cursor) : Error :=
    problemAt ("while scanning a " ++ what) start ("expected '!', but found " ++ shown c.peek?) c
  if c.peek? ≠ some '!' then .error (complain c)
  else if c.peekAt? 1 = some ' ' then .ok ("!", c.next)
  else
    let (name, after) := c.next.span isNameChar
    if after.peek? = some '!' then .ok (String.ofList ('!' :: name ++ ['!']), after.next)
    else .error (complain after)

/-- Reads a tag. -/
def tagToken (c : Cursor) : Except Error (Token × Cursor) := do
  let start := c.mark
  let (kind, after) ← match c.peekAt? 1 with
    | some '<' => do
      let (suffix, after) ← tagUri "tag" start (c.skip 2)
      if after.peek? = some '>' then pure (TokenKind.tag none suffix, after.next)
      else .error (problemAt "while parsing a tag" start
        ("expected '>', but found " ++ shown after.peek?) after)
    | next =>
      if atBlank next then pure (TokenKind.tag none "!", c.next)
      else if ((c.next.rest.takeWhile fun ch => !isBreak ch && ch ≠ ' ').contains '!') then do
        let (handle, after) ← tagHandle "tag" start c
        let (suffix, after) ← tagUri "tag" start after
        pure (TokenKind.tag (some handle) suffix, after)
      else do
        let (suffix, after) ← tagUri "tag" start c.next
        pure (TokenKind.tag (some "!") suffix, after)
  if atSpace after.peek? then .ok (⟨kind, start, after.mark⟩, after)
  else .error (problemAt "while scanning a tag" start
    ("expected ' ', but found " ++ shown after.peek?) after)

/-! ### Directives -/

def directiveProblem (start : Mark) (expected : String) (c : Cursor) : Error :=
  problemAt "while scanning a directive" start
    ("expected " ++ expected ++ ", but found " ++ shown c.peek?) c

def versionNumber (start : Mark) (c : Cursor) : Except Error (Nat × Cursor) :=
  let (digits, after) := c.span Char.isDigit
  if digits = [] then .error (directiveProblem start "a digit" c)
  else
    match Number.whole 10 (String.ofList digits) with
    | .ok n => .ok (n.toNat, after)
    | .error fault => .error (.badValue (.numeral fault))

/-- Reads a directive with its line. -/
def directiveToken (c : Cursor) : Except Error (Token × Cursor) := do
  let start := c.mark
  let (name, c) := c.next.span isNameChar
  if name = [] || !atSpace c.peek? then
    .error (directiveProblem start "alphabetic or numeric character" c)
  else
    let (directive, c, stop) ←
      if name = "YAML".toList then do
        let (major, c) ← versionNumber start c.skipSpaces
        if c.peek? ≠ some '.' then .error (directiveProblem start "a digit or '.'" c)
        else
          let (minor, c) ← versionNumber start c.next
          if !atSpace c.peek? then .error (directiveProblem start "a digit or ' '" c)
          else pure (Directive.version major minor, c, c.mark)
      else if name = "TAG".toList then do
        let (handle, c) ← tagHandle "directive" start c.skipSpaces
        if c.peek? ≠ some ' ' then .error (directiveProblem start "' '" c)
        else
          let (target, c) ← tagUri "directive" start c.skipSpaces
          if !atSpace c.peek? then .error (directiveProblem start "' '" c)
          else pure (Directive.handle handle target, c, c.mark)
      else pure (Directive.other, c.skipLine, c.mark)
    let c := c.skipSpaces
    let c := if c.peek? = some '#' then c.skipLine else c
    if !atLineEnd c.peek? then .error (directiveProblem start "a comment or a line break" c)
    else .ok (⟨.directive directive, start, stop⟩, (c.lineBreak?.map (·.2)).getD c)

end Ancestry.Yaml
