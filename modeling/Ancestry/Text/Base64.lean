/-!
Bytes written in base 64: four characters of the alphabet for three bytes. Characters outside the
alphabet are skipped, and equals signs fill up the last group.
-/

namespace Ancestry.Text.Base64

/-- Why a text stands for no bytes. -/
inductive Fault where
  /-- One character is left over, behind so many others. -/
  | loneCharacter (count : Nat)
  /-- The last group is not filled up. -/
  | padding
  deriving DecidableEq, Repr

def Fault.message : Fault → String
  | loneCharacter count =>
    "Invalid base64-encoded string: number of data characters (" ++ toString count ++
      ") cannot be 1 more than a multiple of 4"
  | padding => "Incorrect padding"

/-- The six bits of a character of the alphabet. -/
def value? (c : Char) : Option Nat :=
  if 'A' ≤ c && c ≤ 'Z' then some (c.toNat - 65)
  else if 'a' ≤ c && c ≤ 'z' then some (c.toNat - 71)
  else if '0' ≤ c && c ≤ '9' then some (c.toNat + 4)
  else if c = '+' then some 62
  else if c = '/' then some 63
  else none

/-- The group that is being read: its characters so far and the equals signs behind them. -/
structure Group where
  values : List Nat := []
  signs : Nat := 0

/-- The byte that the last character of a group completes. -/
def lastByte? : List Nat → Option UInt8
  | [a, b] => some (a * 4 + b / 16).toUInt8
  | [_, b, c] => some (b % 16 * 16 + c / 4).toUInt8
  | [_, _, c, d] => some (c % 4 * 64 + d).toUInt8
  | _ => none

/-- Decodes the rest of a text behind `done` bytes. -/
def decodeFrom (group : Group) (done : List UInt8) : List Char → Except Fault (List UInt8)
  | [] =>
    match group.values with
    | [] => .ok done.reverse
    | [_] => .error (.loneCharacter (done.length / 3 * 4 + 1))
    | _ => .error .padding
  | c :: s =>
    if c = '=' then
      if 2 ≤ group.values.length then
        if 4 ≤ group.values.length + group.signs + 1 then .ok done.reverse
        else decodeFrom { group with signs := group.signs + 1 } done s
      else decodeFrom group done s
    else
      match value? c with
      | none => decodeFrom group done s
      | some v =>
        let values := group.values ++ [v]
        let done := (lastByte? values).toList ++ done
        decodeFrom ⟨if values.length = 4 then [] else values, 0⟩ done s

/-- The bytes that a text stands for. -/
def decode (text : String) : Except Fault (List UInt8) :=
  decodeFrom {} [] text.toList

end Ancestry.Text.Base64
