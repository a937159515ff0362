import Ancestry.Text.Quoted
import Ancestry.Yaml.Value

/-!
JSON values with whole numbers, and their text on one line in ASCII.
-/

namespace Ancestry

inductive Json where
  | null
  | bool (b : Bool)
  | int (n : Int)
  | text (s : String)
  | list (items : List Json)
  | object (members : List (String × Json))
  deriving Inhabited

namespace Json

/-- A code unit by its number. -/
def escapedUnit (n : Nat) : String :=
  "\\u" ++ Text.hexDigits 4 n

/-- A character between double quotes. Those outside ASCII are written by their code units. -/
def escapedChar (c : Char) : String :=
  match c with
  | '"' => "\\\""
  | '\\' => "\\\\"
  | '\n' => "\\n"
  | '\r' => "\\r"
  | '\t' => "\\t"
  | '\x08' => "\\b"
  | '\x0c' => "\\f"
  | c =>
    let number := (Text.half? c).getD c.toNat
    if 0x20 ≤ number && number < 0x7f then String.singleton c
    else if number < 0x10000 then escapedUnit number
    else
      let n := number - 0x10000
      escapedUnit (0xd800 + n / 0x400) ++ escapedUnit (0xdc00 + n % 0x400)

def quoted (s : String) : String :=
  "\"" ++ String.join (s.toList.map escapedChar) ++ "\""

mutual

/-- The text of a value, with a blank after each comma and colon. -/
def line : Json → String
  | null => "null"
  | bool b => if b then "true" else "false"
  | int n => toString n
  | text s => quoted s
  | list items => "[" ++ ", ".intercalate (lines items) ++ "]"
  | object members => "\x7b" ++ ", ".intercalate (memberLines members) ++ "\x7d"

def lines : List Json → List String
  | [] => []
  | v :: rest => v.line :: lines rest

def memberLines : List (String × Json) → List String
  | [] => []
  | (k, v) :: rest => (quoted k ++ ": " ++ v.line) :: memberLines rest

end

mutual

/-- Every JSON value is a YAML value. -/
def toYaml : Json → Yaml.Value
  | null => .null
  | bool b => .bool b
  | int n => .int n
  | text s => .text s
  | list items => .list (allToYaml items)
  | object members => .mapping (membersToYaml members)

def allToYaml : List Json → List Yaml.Value
  | [] => []
  | v :: rest => v.toYaml :: allToYaml rest

def membersToYaml : List (String × Json) → List (Yaml.Value × Yaml.Value)
  | [] => []
  | (k, v) :: rest => (.text k, v.toYaml) :: membersToYaml rest

end

/-- Puts a member into an object, in the place of one of the same name if there is one. -/
def putMember (members : List (String × Json)) (member : String × Json) : List (String × Json) :=
  if members.any (·.1 = member.1) then
    members.map fun m => if m.1 = member.1 then member else m
  else members ++ [member]

end Json
end Ancestry
