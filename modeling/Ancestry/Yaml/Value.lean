import Ancestry.Number.Shortest
import Ancestry.Yaml.Fault

/-!
Values: what a document means, and how messages show it.
-/

namespace Ancestry.Yaml
open Ancestry.Number Ancestry.Calendar

inductive Value where
  | null
  | bool (b : Bool)
  | int (n : Int)
  | float (x : Double)
  /-- What is no number. Two of them are the same only if they have one origin. -/
  | nan (origin : Nat)
  | text (s : String)
  | bytes (b : List UInt8)
  | date (d : Date)
  | moment (m : Moment)
  | list (items : List Value)
  | pair (first second : Value)
  | set (items : List Value)
  | mapping (pairs : List (Value × Value))
  /-- A list or a mapping inside itself. -/
  | loop (isMapping : Bool)

namespace Value

/-- The name of the type of a value in messages. -/
def typeName : Value → String
  | null => "NoneType"
  | bool _ => "bool"
  | int _ => "int"
  | float _ | nan _ => "float"
  | text _ => "str"
  | bytes _ => "bytes"
  | date _ => "datetime.date"
  | moment _ => "datetime.datetime"
  | list _ => "list"
  | pair _ _ => "tuple"
  | set _ => "set"
  | mapping _ => "dict"
  | loop isMapping => if isMapping then "dict" else "list"

def dateShown (d : Date) : String :=
  toString d.year ++ ", " ++ toString d.month ++ ", " ++ toString d.day

/-- A distance from universal time. -/
def zoneShown (minutes : Int) : String :=
  if minutes = 0 then "datetime.timezone.utc"
  else "datetime.timezone(" ++ spanShown minutes ++ ")"

def momentShown (m : Moment) : String :=
  "datetime.datetime(" ++ dateShown m.date ++ ", " ++ toString m.hour ++ ", " ++
    toString m.minute ++
    (if m.second = 0 && m.micro = 0 then "" else ", " ++ toString m.second) ++
    (if m.micro = 0 then "" else ", " ++ toString m.micro) ++
    (match m.offset? with
      | none => ""
      | some minutes => ", tzinfo=" ++ zoneShown minutes) ++ ")"

/-- A byte between quotes of the kind `quote`. -/
def byteShown (quote : Char) (b : UInt8) : String :=
  let c := Char.ofNat b.toNat
  if c = quote || c = '\\' then String.ofList ['\\', c]
  else if c = '\n' then "\\n"
  else if c = '\r' then "\\r"
  else if c = '\t' then "\\t"
  else if 0x20 ≤ b.toNat && b.toNat < 0x7f then String.singleton c
  else "\\x" ++ Text.hexDigits 2 b.toNat

def bytesShown (bytes : List UInt8) : String :=
  let quote := Text.quoteFor (String.ofList (bytes.map fun b => Char.ofNat b.toNat))
  "b" ++ String.singleton quote ++ String.join (bytes.map (byteShown quote)) ++
    String.singleton quote

mutual

/-- A value as it is shown inside another one: texts are quoted. -/
def shown : Value → String
  | null => "None"
  | bool b => if b then "True" else "False"
  | int n => toString n
  | float x => x.text
  | nan _ => "nan"
  | text s => Text.quoted s
  | bytes b => bytesShown b
  | date d => "datetime.date(" ++ dateShown d ++ ")"
  | moment m => momentShown m
  | list items => "[" ++ ", ".intercalate (allShown items) ++ "]"
  | pair first second => "(" ++ first.shown ++ ", " ++ second.shown ++ ")"
  | set [] => "set()"
  | set items => "\x7b" ++ ", ".intercalate (allShown items) ++ "\x7d"
  | mapping pairs => "\x7b" ++ ", ".intercalate (pairsShown pairs) ++ "\x7d"
  | loop isMapping => if isMapping then "\x7b...\x7d" else "[...]"

def allShown : List Value → List String
  | [] => []
  | v :: rest => v.shown :: allShown rest

def pairsShown : List (Value × Value) → List String
  | [] => []
  | (k, v) :: rest => (k.shown ++ ": " ++ v.shown) :: pairsShown rest

end

/-- A value as it is shown on its own. -/
def message : Value → String
  | text s => s
  | date d => d.text
  | moment m => m.text " "
  | v => v.shown

/-- How many levels of the stack it takes to show the zone of a time. -/
def zoneLevels (m : Moment) : Nat :=
  match m.offset? with
  | none => 0
  | some minutes => if minutes = 0 then 1 else 2

mutual

/-- Why a value cannot be shown inside another one, if it cannot. Each value takes a level of the
stack on top of the one around it, and a whole number may have too many digits. -/
def showFault? : Value → Nat → Option ValueFault
  | _, 0 => some .tooDeep
  | int n, _ + 1 => if tooLongToWrite n then some .tooLongToWrite else none
  | moment m, levels + 1 => if zoneLevels m ≤ levels then none else some .tooDeep
  | list items, levels + 1 => itemsFault? items levels
  | pair first second, levels + 1 => (first.showFault? levels).or (second.showFault? levels)
  -- the items of a set are shown as those of a list inside it
  | set items, levels + 1 => itemsFault? items (levels - 1)
  | mapping pairs, levels + 1 => pairsFault? pairs levels
  | _, _ + 1 => none

def itemsFault? : List Value → Nat → Option ValueFault
  | [], _ => none
  | v :: rest, levels => (v.showFault? levels).or (itemsFault? rest levels)

def pairsFault? : List (Value × Value) → Nat → Option ValueFault
  | [], _ => none
  | (k, v) :: rest, levels =>
    ((k.showFault? levels).or (v.showFault? levels)).or (pairsFault? rest levels)

end

/-- Why a value cannot be shown on its own, if it cannot. A text is what it is. -/
def messageFault? (levels : Nat) : Value → Option ValueFault
  | text _ => none
  | v => v.showFault? levels

/-- The whole number that a key stands for. -/
def asInt? : Value → Option Int
  | bool b => some (if b then 1 else 0)
  | int n => some n
  | _ => none

/-- Whether two keys are the same. Numbers of all kinds are compared by size, and a truth value
counts as one or zero. -/
def sameKey : Value → Value → Bool
  | null, null => true
  | text a, text b => a = b
  | bytes a, bytes b => a = b
  | date a, date b => a = b
  | moment a, moment b => a.same b
  | float x, float y => x.same y
  | nan a, nan b => a = b
  | a, b =>
    match a.asInt?, b.asInt?, a, b with
    | some m, some n, _, _ => m = n
    | some m, none, _, float y => y.equalsInt m
    | none, some n, float x, _ => x.equalsInt n
    | _, _, _, _ => false

end Value

/-- Puts something under a key. A key that is there already keeps its place. -/
def putPair {α : Type} (pairs : List (Value × α)) (key : Value) (value : α) : List (Value × α) :=
  if pairs.any (·.1.sameKey key) then
    pairs.map fun p => if p.1.sameKey key then (p.1, value) else p
  else pairs ++ [(key, value)]

end Ancestry.Yaml
