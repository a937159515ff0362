import Ancestry.Number.Double
import Ancestry.Text.Digit
import Ancestry.Text.Quoted
import Ancestry.Text.Space

/-!
Numerals: whole numbers to a base and numbers in double precision, as they are written. Digits of
every script count, and white space may stand at both ends.
-/

namespace Ancestry.Number

/-- Why a text is no numeral. -/
inductive NumeralFault where
  | notWhole (base : Nat) (text : String)
  /-- More decimal digits than a whole number may have. -/
  | tooManyDigits (count : Nat)
  | notDouble (text : String)
  deriving DecidableEq, Repr

/-- How many decimal digits a whole number may have where it is read or written. -/
def maxDigits : Nat := 4300

/-- How many characters of a text a complaint about a whole number shows. -/
def maxShown : Nat := 200

def NumeralFault.message : NumeralFault → String
  | notWhole base text =>
    "invalid literal for int() with base " ++ toString base ++ ": " ++
      String.ofList ((Text.quoted text).toList.take maxShown)
  | tooManyDigits count =>
    "Exceeds the limit (" ++ toString maxDigits ++
      " digits) for integer string conversion: value has " ++ toString count ++
      " digits; use sys.set_int_max_str_digits() to increase the limit"
  | notDouble text => "could not convert string to float: " ++ Text.quoted text

/-- Whether a whole number has more digits than may be written. -/
def tooLongToWrite (n : Int) : Bool :=
  tenTo maxDigits ≤ n.natAbs

/-- White space of ASCII. -/
def isBlank (c : Char) : Bool :=
  c = ' ' || (9 ≤ c.toNat && c.toNat ≤ 13)

/-- A character as numerals take it: outside ASCII, digits count as those of ASCII, spaces as
blanks, and nothing else has a meaning. -/
def plainChar (c : Char) : Char :=
  if c.toNat < 127 then c
  else if Text.isSpace c then ' '
  else
    match Text.digitValue? c with
    | some d => Char.ofNat (48 + d)
    | none => '?'

/-- The characters of a numeral from its first one that is not blank. -/
def plainChars (text : String) : List Char :=
  (text.toList.map plainChar).dropWhile isBlank

/-- A sign, and what follows it. -/
def takeSign : List Char → Bool × List Char
  | '-' :: s => (true, s)
  | '+' :: s => (false, s)
  | s => (false, s)

/-- The value of a digit, where letters go on after nine. -/
def digit? (c : Char) : Option Nat :=
  if c.isDigit then some (c.toNat - 48)
  else if 'a' ≤ c && c ≤ 'z' then some (c.toNat - 87)
  else if 'A' ≤ c && c ≤ 'Z' then some (c.toNat - 55)
  else none

/-- The digits to a base at the start of a text, and what follows them. -/
def takeDigits (base : Nat) : List Char → List Nat × List Char
  | [] => ([], [])
  | c :: s =>
    match (digit? c).filter (· < base) with
    | some d => (takeDigits base s).map (d :: ·) id
    | none => ([], c :: s)

/-- Skips the mark of a base behind its zero. -/
def dropBaseMark (base : Nat) : List Char → List Char
  | '0' :: mark :: s =>
    if (base = 2 && (mark = 'b' || mark = 'B')) || (base = 8 && (mark = 'o' || mark = 'O')) ||
        (base = 16 && (mark = 'x' || mark = 'X')) then s
    else '0' :: mark :: s
  | s => s

/-- The whole number that a text stands for. -/
def whole (base : Nat) (text : String) : Except NumeralFault Int :=
  let (negative, s) := takeSign (plainChars text)
  let (digits, rest) := takeDigits base (dropBaseMark base s)
  if base = 10 && maxDigits < digits.length then .error (.tooManyDigits digits.length)
  else if digits = [] || !rest.all isBlank then .error (.notWhole base text)
  else
    let size : Nat := digits.foldl (fun n d => n * base + d) 0
    .ok (if negative then -(size : Int) else size)

/-- The exponent at the start of a text, if there is one, and what follows it. -/
def takeExponent : List Char → Int × List Char
  | e :: s =>
    if e = 'e' || e = 'E' then
      let (negative, t) := takeSign s
      match takeDigits 10 t with
      | ([], _) => (0, e :: s)
      | (digits, rest) =>
        let size : Nat := digits.foldl (fun n d => n * 10 + d) 0
        (if negative then -(size : Int) else size, rest)
    else (0, e :: s)
  | [] => (0, [])

/-- A decimal numeral without a sign at the start of a text, and what follows it. -/
def takeDecimal (negative : Bool) (s : List Char) : Option (Double × List Char) :=
  let (whole, s) := takeDigits 10 s
  let (fraction, s) := match s with
    | '.' :: t => takeDigits 10 t
    | t => ([], t)
  if whole = [] && fraction = [] then none
  else
    let (exponent, s) := takeExponent s
    some (.ofDecimal negative (whole ++ fraction) (exponent - fraction.length), s)

/-- The names of what is infinite or no number, the longest first. -/
def namedDoubles (negative : Bool) : List (String × Double) :=
  [("infinity", .infinite negative), ("inf", .infinite negative), ("nan", .nan)]

def takeNamed (negative : Bool) (s : List Char) : Option (Double × List Char) :=
  (namedDoubles negative).findSome? fun (name, x) =>
    if name.toList.isPrefixOf (s.map Char.toLower) then some (x, s.drop name.length) else none

/-- The number in double precision that a text stands for. -/
def double (text : String) : Except NumeralFault Double :=
  let (negative, s) := takeSign (plainChars text)
  match (takeDecimal negative s).or (takeNamed negative s) with
  | some (x, rest) => if rest.all isBlank then .ok x else .error (.notDouble text)
  | none => .error (.notDouble text)

end Ancestry.Number
