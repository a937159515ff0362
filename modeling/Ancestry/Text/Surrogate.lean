/-!
Halves of surrogate pairs. A number may name such a half although it is no character. In a text a
stand-in takes its place, from a plane in which no character is assigned; whoever writes the text
out gives the half its own number again.
-/

namespace Ancestry.Text

/-- How far a stand-in is above the half that it stands for. -/
def standInShift : Nat := 0x50000

def isHalf (n : Nat) : Bool :=
  0xd800 ≤ n && n ≤ 0xdfff

/-- The character of a number, where halves of pairs have their stand-ins. -/
def charOfNumber (n : Nat) : Char :=
  Char.ofNat (if isHalf n then n + standInShift else n)

/-- The half that a character stands in for. -/
def half? (c : Char) : Option Nat :=
  let n := c.toNat - standInShift
  if isHalf n then some n else none

end Ancestry.Text
