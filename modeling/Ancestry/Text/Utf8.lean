import Ancestry.Text.Quoted

/-!
Texts from bytes in UTF-8. A fault is reported with the bytes that it concerns.
-/

namespace Ancestry.Text.Utf8

/-- Why bytes are no text. -/
inductive Fault where
  | invalidStart
  | invalidContinuation
  | unexpectedEnd
  deriving DecidableEq, Repr

/-- A fault, the place of its first byte, and its bytes. -/
structure Error where
  fault : Fault
  start : Nat
  bytes : List UInt8
  deriving DecidableEq, Repr

def Fault.reason : Fault → String
  | invalidStart => "invalid start byte"
  | invalidContinuation => "invalid continuation byte"
  | unexpectedEnd => "unexpected end of data"

def Error.message (e : Error) : String :=
  let place := match e.bytes with
    | [b] => "byte 0x" ++ hexDigits 2 b.toNat ++ " in position " ++ toString e.start
    | bytes => "bytes in position " ++ toString e.start ++ "-" ++
        toString (e.start + bytes.length - 1)
  "'utf-8' codec can't decode " ++ place ++ ": " ++ e.fault.reason

/-- The lowest and the highest continuation byte right after a first byte, and how many
continuation bytes follow it in all. -/
def follow? (b : Nat) : Option (Nat × Nat × Nat) :=
  if 0xc2 ≤ b && b ≤ 0xdf then some (0x80, 0xbf, 1)
  else if b = 0xe0 then some (0xa0, 0xbf, 2)
  else if b = 0xed then some (0x80, 0x9f, 2)
  else if 0xe1 ≤ b && b ≤ 0xef then some (0x80, 0xbf, 2)
  else if b = 0xf0 then some (0x90, 0xbf, 3)
  else if 0xf1 ≤ b && b ≤ 0xf3 then some (0x80, 0xbf, 3)
  else if b = 0xf4 then some (0x80, 0x8f, 3)
  else none

/-- A character of which the first bytes have been read. -/
structure Open where
  /-- The place of the first byte. -/
  start : Nat
  /-- The bytes so far. -/
  bytes : List UInt8
  /-- The code point so far. -/
  code : Nat
  low : Nat
  high : Nat
  missing : Nat

/-- The text before a fault, and the fault if there is one. -/
structure Decoded where
  text : List Char
  error? : Option Error

def Decoded.push (c : Char) (d : Decoded) : Decoded :=
  { d with text := c :: d.text }

/-- Decodes from position `n` on. -/
def decodeFrom (n : Nat) (pending : Option Open) : List UInt8 → Decoded
  | [] =>
    match pending with
    | none => ⟨[], none⟩
    | some o => ⟨[], some ⟨.unexpectedEnd, o.start, o.bytes⟩⟩
  | b :: rest =>
    match pending with
    | none =>
      if b.toNat < 0x80 then (decodeFrom (n + 1) none rest).push (Char.ofNat b.toNat)
      else
        match follow? b.toNat with
        | none => ⟨[], some ⟨.invalidStart, n, [b]⟩⟩
        | some (low, high, count) =>
          decodeFrom (n + 1) (some ⟨n, [b], b.toNat % Nat.pow 2 (6 - count), low, high, count⟩) rest
    | some o =>
      if o.low ≤ b.toNat && b.toNat ≤ o.high then
        let code := o.code * 64 + b.toNat % 64
        if o.missing ≤ 1 then (decodeFrom (n + 1) none rest).push (Char.ofNat code)
        else
          decodeFrom (n + 1)
            (some ⟨o.start, o.bytes ++ [b], code, 0x80, 0xbf, o.missing - 1⟩) rest
      else ⟨[], some ⟨.invalidContinuation, o.start, o.bytes⟩⟩

def decode (bytes : List UInt8) : Decoded :=
  decodeFrom 0 none bytes

/-- How many bytes are read at once. -/
def portion : Nat := 8192

/-- Divides bytes into portions. Each step of the fuel takes one. -/
def portionsFrom : Nat → List UInt8 → List (List UInt8)
  | 0, _ => []
  | fuel + 1, bytes =>
    if bytes = [] then [] else bytes.take portion :: portionsFrom fuel (bytes.drop portion)

def portions (bytes : List UInt8) : List (List UInt8) :=
  portionsFrom bytes.length bytes

/-- Decodes portions one after the other. A character that a portion leaves open goes on in the
next one. Of a portion with a fault nothing is taken, and the place of the fault counts from the
start of what was at hand then. -/
def decodePortions (left : List UInt8) : List (List UInt8) → Decoded
  | [] => ⟨[], if left = [] then none else some ⟨.unexpectedEnd, 0, left⟩⟩
  | bytes :: rest =>
    let d := decode (left ++ bytes)
    match d.error? with
    | none =>
      let more := decodePortions [] rest
      { more with text := d.text ++ more.text }
    | some e =>
      if e.fault = .unexpectedEnd then
        let more := decodePortions e.bytes rest
        { more with text := d.text ++ more.text }
      else ⟨[], some e⟩

/-- The text that can be read before a fault, and the fault if there is one. Where the text breaks
off behind a return, that one is held back, since a line feed may have followed. -/
def read (bytes : List UInt8) : Decoded :=
  let d := decodePortions [] (portions bytes)
  if d.error?.isSome && d.text.getLast? = some '\r' then { d with text := d.text.dropLast } else d

/-- The text of bytes that are one. -/
def text (bytes : List UInt8) : Except Error (List Char) :=
  let d := decode bytes
  match d.error? with
  | none => .ok d.text
  | some e => .error e

end Ancestry.Text.Utf8
