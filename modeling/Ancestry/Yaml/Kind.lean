import Ancestry.Yaml.Time

/-!
The kinds of scalars. A plain scalar is a null, a truth value, a number, a time or a marker if it
looks like one, and else a text.
-/

namespace Ancestry.Yaml

/-- The start of the names of all standard kinds. -/
def standard (name : String) : String :=
  "tag:yaml.org,2002:" ++ name

def isNull (s : String) : Bool :=
  ["", "~", "null", "Null", "NULL"].contains s

def isBool (s : String) : Bool :=
  ["yes", "Yes", "YES", "no", "No", "NO", "true", "True", "TRUE", "false", "False", "FALSE", "on",
   "On", "ON", "off", "Off", "OFF"].contains s

def dropSign : List Char → List Char
  | '-' :: s | '+' :: s => s
  | s => s

def isDigitMark (c : Char) : Bool :=
  c.isDigit || c = '_'

def isOctalMark (c : Char) : Bool :=
  ('0' ≤ c && c ≤ '7') || c = '_'

def isBinaryMark (c : Char) : Bool :=
  c = '0' || c = '1' || c = '_'

def isHexMark (c : Char) : Bool :=
  c.isDigit || ('a' ≤ c && c ≤ 'f') || ('A' ≤ c && c ≤ 'F') || c = '_'

/-- Reads a part from 0 to 59 behind a colon. -/
def sixtieth? : List Char → Option (List Char)
  | ':' :: a :: b :: s =>
    if '0' ≤ a && a ≤ '5' && b.isDigit then some s
    else if a.isDigit then some (b :: s)
    else none
  | [':', a] => if a.isDigit then some [] else none
  | _ => none

/-- Skips parts behind colons. -/
def skipSixtieths : Nat → List Char → List Char
  | 0, s => s
  | fuel + 1, s =>
    match sixtieth? s with
    | some rest => skipSixtieths fuel rest
    | none => s

/-- What is left behind parts after colons, if there is at least one such part. -/
def sixtieths? (s : List Char) : Option (List Char) :=
  (sixtieth? s).map (skipSixtieths s.length)

/-- Digits to the base sixty take one or two places each, so a part of one digit may also end before
a second digit; only the whole text decides. -/
def allSixtieths (s : List Char) : Bool :=
  sixtieths? s = some []

def isInt (s : String) : Bool :=
  let t := dropSign s.toList
  match t with
  | '0' :: 'b' :: d => d ≠ [] && d.all isBinaryMark
  | '0' :: 'x' :: d => d ≠ [] && d.all isHexMark
  | '0' :: d => d.all isOctalMark
  | c :: d =>
    c.isDigit && (d.all isDigitMark || allSixtieths (d.dropWhile isDigitMark))
  | [] => false

/-- Whether a text is empty or an exponent with its sign. -/
def isExponent : List Char → Bool
  | [] => true
  | e :: sign :: d =>
    (e = 'e' || e = 'E') && (sign = '-' || sign = '+') && d ≠ [] && d.all Char.isDigit
  | _ => false

def isFloat (s : String) : Bool :=
  let signed := s.toList
  let t := dropSign signed
  let named := match t with
    | '.' :: name => ["inf", "Inf", "INF"].contains (String.ofList name)
    | _ => false
  let notNumber := match signed with
    | '.' :: name => ["nan", "NaN", "NAN"].contains (String.ofList name)
    | _ => false
  let pointFirst := match signed with
    | '.' :: c :: d => c.isDigit && isExponent (d.dropWhile isDigitMark)
    | _ => false
  let pointInside := match t with
    | c :: d =>
      c.isDigit && match d.dropWhile isDigitMark with
        | '.' :: rest => isExponent (rest.dropWhile isDigitMark)
        | rest =>
          match sixtieths? rest with
          | some ('.' :: tail) => tail.all isDigitMark
          | _ => false
    | [] => false
  named || notNumber || pointFirst || pointInside

/-- The kind that a scalar looks like. A line feed at its end does not count. -/
def plainKind (s : String) : String :=
  let chars := s.toList
  let s := if chars.length = 1 then s else String.ofList (dropLineEnd chars)
  if isBool s then standard "bool"
  else if isFloat s then standard "float"
  else if isInt s then standard "int"
  else if s = "<<" then standard "merge"
  else if isNull s then standard "null"
  else if isTime chars then standard "timestamp"
  else if s = "=" then standard "value"
  else standard "str"

end Ancestry.Yaml
