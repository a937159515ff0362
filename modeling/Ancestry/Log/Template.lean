import Ancestry.Json
import Ancestry.Number.Places

/-!
Message templates. A directive starts with a percent sign and is replaced by a value: the next one
of a row, or the member of a mapping that it names. Flags, a width and a precision say how the value
is written, and a last letter says as what. Two percent signs stand for one.
-/

namespace Ancestry.Log

/-- The two sizes that a directive may state. -/
inductive Size where
  | width
  | precision
  deriving DecidableEq, Repr

/-- Sizes stay below a power of two. -/
def Size.bits : Size → Nat
  | width => 63
  | precision => 31

/-- Why values do not fit a template. -/
inductive TemplateError where
  | tooFewValues
  | tooManyValues
  | needsMapping
  | openKey
  | noMember (key : String)
  | starNeedsInteger
  | starTooLarge (size : Size)
  | sizeTooLarge (size : Size)
  | incomplete
  | needsNumber (code : Char) (typeName : String)
  | needsInteger (code : Char) (typeName : String)
  | needsReal (typeName : String)
  | needsCharacter
  | noCharacter
  | tooLarge
  | precisionTooLarge
  | unknownCode (code : Char) (index : Nat)
  deriving DecidableEq, Repr

def TemplateError.message : TemplateError → String
  | tooFewValues => "not enough arguments for format string"
  | tooManyValues => "not all arguments converted during string formatting"
  | needsMapping => "format requires a mapping"
  | openKey => "incomplete format key"
  | noMember key => Text.quoted key
  | starNeedsInteger => "* wants int"
  | starTooLarge .width => "Python int too large to convert to C ssize_t"
  | starTooLarge .precision => "Python int too large to convert to C int"
  | sizeTooLarge .width => "width too big"
  | sizeTooLarge .precision => "precision too big"
  | incomplete => "incomplete format"
  | needsNumber code typeName =>
    "%" ++ String.singleton code ++ " format: a real number is required, not " ++ typeName
  | needsInteger code typeName =>
    "%" ++ String.singleton code ++ " format: an integer is required, not " ++ typeName
  | needsReal typeName => "must be real number, not " ++ typeName
  | needsCharacter => "%c requires int or char"
  | noCharacter => "%c arg not in range(0x110000)"
  | tooLarge => "int too large to convert to float"
  | precisionTooLarge => "precision too large"
  | unknownCode code index =>
    let shown := if 31 ≤ code.toNat && code.toNat < 127 then code else '?'
    "unsupported format character '" ++ String.singleton shown ++ "' (0x" ++
      Text.hexDigits 1 code.toNat ++ ") at index " ++ toString index

/-- The values that are left, and the mapping that members are taken from. -/
structure Supply where
  row : List Json
  mapping? : Option (List (String × Json))

namespace Supply

/-- A row of values. A row of one mapping that is not empty is that mapping. -/
def ofRow : List Json → Supply
  | [.object (m :: rest)] => ⟨[.object (m :: rest)], some (m :: rest)⟩
  | row => ⟨row, none⟩

def next (s : Supply) : Except TemplateError (Json × Supply) :=
  match s.row with
  | [] => .error .tooFewValues
  | v :: rest => .ok (v, { s with row := rest })

end Supply

/-- How a value is to be written. -/
structure Directive where
  left : Bool := false
  plus : Bool := false
  blank : Bool := false
  alternative : Bool := false
  zero : Bool := false
  width : Nat := 0
  precision? : Option Nat := none
  deriving DecidableEq, Repr

namespace Directive

def flag? (c : Char) (d : Directive) : Option Directive :=
  match c with
  | '-' => some { d with left := true }
  | '+' => some { d with plus := true }
  | ' ' => some { d with blank := true }
  | '#' => some { d with alternative := true }
  | '0' => some { d with zero := true }
  | _ => none

def readFlags (d : Directive) : List Char → Directive × List Char
  | [] => (d, [])
  | c :: s =>
    match d.flag? c with
    | some d => readFlags d s
    | none => (d, c :: s)

/-- The name of a member up to its closing parenthesis, with `depth` of them open. -/
def readKey (depth : Nat) : List Char → Option (List Char × List Char)
  | [] => none
  | ')' :: s =>
    match depth with
    | 0 => some ([], s)
    | depth + 1 => (readKey depth s).map fun (key, s) => (')' :: key, s)
  | '(' :: s => (readKey (depth + 1) s).map fun (key, s) => ('(' :: key, s)
  | c :: s => (readKey depth s).map fun (key, s) => (c :: key, s)

/-- Takes the member that a directive names, if it names one. -/
def readMember (supply : Supply) : List Char → Except TemplateError (List Char × Supply)
  | '(' :: s =>
    match supply.mapping? with
    | none => .error .needsMapping
    | some members =>
      match readKey 0 s with
      | none => .error .openKey
      | some (key, s) =>
        match members.lookup (String.ofList key) with
        | none => .error (.noMember (String.ofList key))
        | some v => .ok (s, { supply with row := [v] })
  | s => .ok (s, supply)

/-- The whole number that a value stands for. -/
def int? : Json → Option Int
  | .int n => some n
  | .bool b => some (if b then 1 else 0)
  | _ => none

def natOfDigits (digits : List Char) : Nat :=
  digits.foldl (fun n c => n * 10 + (c.toNat - '0'.toNat)) 0

/-- Whether a size is within its bounds. -/
def fits (size : Size) (n : Int) : Bool :=
  -(Nat.pow 2 size.bits : Nat) ≤ n && n < (Nat.pow 2 size.bits : Nat)

/-- A size that is written out, or the next value for an asterisk. -/
def readSize (size : Size) (supply : Supply) :
    List Char → Except TemplateError (Option Int × List Char × Supply)
  | '*' :: s => do
    let (v, supply) ← supply.next
    match int? v with
    | none => throw .starNeedsInteger
    | some n => if fits size n then return (some n, s, supply) else throw (.starTooLarge size)
  | s =>
    match s.takeWhile Char.isDigit with
    | [] => .ok (none, s, supply)
    | digits =>
      let n := natOfDigits digits
      if fits size n then .ok (some n, s.dropWhile Char.isDigit, supply)
      else .error (.sizeTooLarge size)

/-- Sets the width. One below zero puts the value to the left, and the lowest one of all has no
magnitude among the widths. -/
def withWidth (n? : Option Int) (d : Directive) : Directive :=
  match n? with
  | none => d
  | some n =>
    { d with width := if fits .width n.natAbs then n.natAbs else 0, left := d.left || n < 0 }

def dropLengthMark : List Char → List Char
  | 'h' :: s | 'l' :: s | 'L' :: s => s
  | s => s

/-- Reads a directive behind its percent sign, up to its last letter. -/
def read (supply : Supply) (s : List Char) :
    Except TemplateError (Directive × List Char × Supply) := do
  let (s, supply) ← readMember supply s
  let (d, s) := readFlags {} s
  let (width?, s, supply) ← readSize .width supply s
  let d := d.withWidth width?
  match s with
  | '.' :: s =>
    let (precision?, s, supply) ← readSize .precision supply s
    return ({ d with precision? := some (precision?.getD 0).toNat }, dropLengthMark s, supply)
  | s => return (d, dropLengthMark s, supply)

/-- Writes a body behind its sign and its mark of the base, up to the width. Zeros go between. -/
def fill (d : Directive) (zero : Bool) (lead body : String) : String :=
  let missing := d.width - (lead.length + body.length)
  if d.left then lead ++ body ++ String.ofList (List.replicate missing ' ')
  else if zero then lead ++ String.ofList (List.replicate missing '0') ++ body
  else String.ofList (List.replicate missing ' ') ++ lead ++ body

def sign (d : Directive) (negative : Bool) : String :=
  if negative then "-" else if d.plus then "+" else if d.blank then " " else ""

/-- A text, cut to the precision. -/
def text (d : Directive) (s : String) : String :=
  let s := match d.precision? with
    | some n => String.ofList (s.toList.take n)
    | none => s
  d.fill false "" s

/-- The highest precision of a whole number. -/
def maxPrecision : Nat := 2147483644

/-- A whole number to a base. -/
def wholeText (d : Directive) (code : Char) (n : Int) : String :=
  let (base, mark) := match code with
    | 'o' => (8, "0o")
    | 'x' => (16, "0x")
    | 'X' => (16, "0X")
    | _ => (10, "")
  let digits := Nat.toDigits base n.natAbs
  let digits := if code = 'X' then digits.map Char.toUpper else digits
  let body := List.replicate (d.precision?.getD 0 - digits.length) '0' ++ digits
  d.fill d.zero (d.sign (n < 0) ++ if d.alternative then mark else "") (String.ofList body)

/-- A whole number to a base, unless the precision is too high. -/
def whole (d : Directive) (code : Char) (n : Int) : Except TemplateError String :=
  if maxPrecision < d.precision?.getD 0 then .error .precisionTooLarge
  else .ok (d.wholeText code n)

/-- A number in double precision. -/
def real (d : Directive) (code : Char) (n : Int) : Except TemplateError String :=
  match Number.Double.ofRatio (n < 0) n.natAbs 1 with
  | .finite negative units =>
    let precision := d.precision?.getD 6
    let body := match code.toLower with
      | 'f' => Number.fixedText d.alternative precision units
      | 'e' => Number.powerForm d.alternative precision units
      | _ => Number.generalText d.alternative precision units
    let body := if code.isUpper then body.map Char.toUpper else body
    .ok (d.fill d.zero (d.sign (negative && n ≠ 0)) body)
  | _ => .error .tooLarge

/-- The character of a value. -/
def character : Json → Except TemplateError String
  | .text s => if s.length = 1 then .ok s else .error .needsCharacter
  | .int n =>
    if 0 ≤ n && n < 0x110000 then .ok (String.singleton (Text.charOfNumber n.toNat))
    else .error .noCharacter
  | .bool b => .ok (String.singleton (Char.ofNat (if b then 1 else 0)))
  | _ => .error .needsCharacter

/-- The characters of a text outside ASCII by their numbers. -/
def asciiOnly (s : String) : String :=
  String.join (s.toList.map fun c =>
    if c.toNat < 0x80 then String.singleton c else Text.numbered c)

/-- Writes a value as the last letter of the directive says; that stands at `index`. -/
def write (d : Directive) (code : Char) (index : Nat) (v : Json) : Except TemplateError String :=
  let typeName := v.toYaml.typeName
  match code with
  | 's' => .ok (d.text v.toYaml.message)
  | 'r' => .ok (d.text v.toYaml.shown)
  | 'a' => .ok (d.text (asciiOnly v.toYaml.shown))
  | 'c' => (character v).map (d.fill false "")
  | 'd' | 'i' | 'u' =>
    match int? v with
    | some n => d.whole code n
    | none => .error (.needsNumber code typeName)
  | 'o' | 'x' | 'X' =>
    match int? v with
    | some n => d.whole code n
    | none => .error (.needsInteger code typeName)
  | 'e' | 'E' | 'f' | 'F' | 'g' | 'G' =>
    match int? v with
    | some n => d.real code n
    | none => .error (.needsReal typeName)
  | _ => .error (.unknownCode code index)

end Directive

/-- Fills in what is left of a template of `total` characters. Every step of the fuel reads a
character at least. -/
def fillRest (total : Nat) : Nat → Supply → List Char → Except TemplateError String
  | 0, _, _ => .error .incomplete
  | _ + 1, supply, [] =>
    if supply.mapping?.isNone && supply.row.length ≠ 0 then .error .tooManyValues else .ok ""
  | fuel + 1, supply, '%' :: '%' :: s => return "%" ++ (← fillRest total fuel supply s)
  | fuel + 1, supply, '%' :: s => do
    let (d, s, supply) ← Directive.read supply s
    match s with
    | [] => throw .incomplete
    | code :: s =>
      let (v, supply) ← supply.next
      let text ← d.write code (total - s.length - 1) v
      return text ++ (← fillRest total fuel supply s)
  | fuel + 1, supply, c :: s => return String.singleton c ++ (← fillRest total fuel supply s)

/-- The message of a template. Without values a template stands for itself. -/
def message (template : String) (values : List Json) : Except TemplateError String :=
  if values.isEmpty then .ok template
  else
    let chars := template.toList
    fillRest chars.length (chars.length + 1) (.ofRow values) chars

end Ancestry.Log
