import Ancestry.Text.Base64
import Ancestry.Text.Lower
import Ancestry.Yaml.Cursor
import Ancestry.Yaml.Kind
import Ancestry.Yaml.Value

/-!
Values of scalars: what a text means as a scalar of one of the standard kinds.
-/

namespace Ancestry.Yaml
open Ancestry.Number

/-- The standard kinds of scalars. -/
inductive AtomKind where
  | null
  | bool
  | int
  | float
  | binary
  | timestamp
  | str
  deriving DecidableEq, Repr

namespace AtomKind

def name : AtomKind → String
  | null => "null"
  | bool => "bool"
  | int => "int"
  | float => "float"
  | binary => "binary"
  | timestamp => "timestamp"
  | str => "str"

def all : List AtomKind :=
  [null, bool, int, float, binary, timestamp, str]

def ofKind? (kind : String) : Option AtomKind :=
  all.find? fun k => kind = standard k.name

end AtomKind

def numeral {α : Type} (result : Except NumeralFault α) : Except ValueFault α :=
  result.mapError .numeral

def boolOf (s : String) : Except ValueFault Bool :=
  let word := Text.lower s
  if ["yes", "true", "on"].contains word then .ok true
  else if ["no", "false", "off"].contains word then .ok false
  else .error (.notBool word)

/-- The digits of a number without the marks between them. -/
def plainDigits (s : String) : List Char :=
  s.toList.filter (· ≠ '_')

/-- The sign of a number and what follows it. There has to be something. -/
def signed (s : List Char) : Except ValueFault (Bool × List Char) :=
  if s = [] then .error .noDigits else .ok (takeSign s)

/-- The parts of a number to the base sixty. -/
def sixtyParts (s : List Char) : List String :=
  (s.splitOn ':').map String.ofList

/-- The whole number of a text without its sign. -/
def sizeOf : List Char → Except ValueFault Int
  | [] => .error .noDigits
  | ['0'] => .ok 0
  | '0' :: 'b' :: d => numeral (whole 2 (String.ofList d))
  | '0' :: 'x' :: d => numeral (whole 16 (String.ofList d))
  | '0' :: d => numeral (whole 8 (String.ofList ('0' :: d)))
  | s =>
    if s.contains ':' then do
      let parts ← numeral ((sixtyParts s).mapM (whole 10))
      return parts.foldl (fun n part => n * 60 + part) 0
    else numeral (whole 10 (String.ofList s))

def intOf (s : String) : Except ValueFault Int := do
  let (negative, t) ← signed (plainDigits s)
  let n ← sizeOf t
  return if negative then -n else n

/-- The sum of parts to the base sixty, the last one first. Each one counts sixty times as much as
the one before it. -/
def sixtiesFrom (sum : Double) (place : Nat) : List Double → Except ValueFault Double
  | [] => .ok sum
  | part :: rest =>
    match Double.ofRatio false place 1 with
    | .finite n units => sixtiesFrom (sum.add (part.mul (.finite n units))) (place * 60) rest
    | _ => .error .placeTooLarge

def doubleOf (s : List Char) : Except ValueFault Double :=
  if s = ".inf".toList then .ok (.infinite false)
  else if s.contains ':' then do
    let parts ← numeral ((sixtyParts s).mapM double)
    sixtiesFrom (.finite false 0) 1 parts.reverse
  else numeral (double (String.ofList s))

/-- The number of a text at the node `id`. What is no number has the node for its origin, but all
that are written with a point have one origin. -/
def floatOf (id : Nat) (s : String) : Except ValueFault Value := do
  let (negative, t) ← signed (Text.lower (String.ofList (plainDigits s))).toList
  if t = ".nan".toList then return .nan 0
  match ← doubleOf t with
  | .nan => return .nan (id + 1)
  | x => return .float (if negative then x.negate else x)

def timeOf (s : String) : Except ValueFault Value :=
  match time? s.toList with
  | none => .error .notTime
  | some w =>
    match w.read with
    | .ok (.inl date) => .ok (.date date)
    | .ok (.inr moment) => .ok (.moment moment)
    | .error fault => .error (.calendar fault)

/-- What is wrong with a text that has to be ASCII: the first run of other characters. -/
def asciiFault? (s : List Char) : Option String :=
  let first := (s.takeWhile (·.toNat < 0x80)).length
  match (s.drop first).takeWhile (0x80 ≤ ·.toNat) with
  | [] => none
  | [c] =>
    some ("'ascii' codec can't encode character '" ++ Text.numbered c ++ "' in position " ++
      toString first ++ ": ordinal not in range(128)")
  | run =>
    some ("'ascii' codec can't encode characters in position " ++ toString first ++ "-" ++
      toString (first + run.length - 1) ++ ": ordinal not in range(128)")

/-- The bytes of a text in base 64, for the node at `start`. -/
def bytesOf (start : Mark) (s : String) : Except Error (List UInt8) :=
  let fault (what : String) : Error := .problem none none what (some start)
  match asciiFault? s.toList with
  | some what => .error (fault ("failed to convert base64 data into ascii: " ++ what))
  | none =>
    (Text.Base64.decode s).mapError fun e => fault ("failed to decode base64 data: " ++ e.message)

/-- The value of a text as a scalar of a kind, for the node `id` at `start`. -/
def atomOf (id : Nat) (start : Mark) (kind : AtomKind) (s : String) : Except Error Value :=
  match kind with
  | .null => .ok .null
  | .bool => Value.bool <$> (boolOf s).mapError .badValue
  | .int => Value.int <$> (intOf s).mapError .badValue
  | .float => (floatOf id s).mapError .badValue
  | .binary => Value.bytes <$> bytesOf start s
  | .timestamp => (timeOf s).mapError .badValue
  | .str => .ok (.text s)

end Ancestry.Yaml
