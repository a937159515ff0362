import Ancestry.Yaml.Value

/-!
The order in which the numbers of a set are shown. They stand in a table with more than twice as
many places as there are numbers, eight at least, each one at the place of its remainder or, where
that is taken, at a later one of its places.
-/

namespace Ancestry.Yaml
open Ancestry.Number

/-- Remainders are taken to this number. -/
def residueBase : Nat := Nat.pow 2 61 - 1

/-- The word of a number with a sign, in 64 binary digits. Minus one has the word of minus two. -/
def signedWord (negative : Bool) (size : Nat) : Nat :=
  let size := size % residueBase
  if negative && size ≠ 0 then Nat.pow 2 64 - (if size = 1 then 2 else size) else size

/-- The word of an infinite number. -/
def infiniteWord : Nat := 314159

/-- The word that decides the place of a number. The unit of double precision has the remainder of
two to the twenty-fourth. -/
def word? : Value → Option Nat
  | .bool b => some (if b then 1 else 0)
  | .int n => some (signedWord (n < 0) n.natAbs)
  | .float (.finite negative units) => some (signedWord negative (units * Nat.pow 2 24))
  | .float (.infinite negative) => some (signedWord negative infiniteWord)
  | _ => none

def tableSize (count : Nat) : Nat :=
  if count ≤ 4 then 8 else Nat.pow 2 ((2 * count).log2 + 1)

/-- How many neighbours of a place are tried before the next jump. -/
def neighbours : Nat := 9

/-- The first free place for a word, from place `i` on. Each step of the fuel is a jump. -/
def freePlace (size : Nat) (taken : List Nat) : Nat → Nat → Nat → Nat
  | 0, _, i => i
  | fuel + 1, rest, i =>
    let row := if i + neighbours < size then (List.range (neighbours + 1)).map (i + ·) else [i]
    match row.find? (!taken.contains ·) with
    | some place => place
    | none =>
      let rest := rest / 32
      freePlace size taken fuel rest ((i * 5 + 1 + rest) % size)

/-- The places of words, one after the other. -/
def places (size : Nat) (taken : List Nat) : List Nat → List Nat
  | [] => []
  | word :: rest =>
    let place := freePlace size taken (size + 16) word (word % size)
    place :: places size (place :: taken) rest

/-- The elements of a set as they are shown. Where not all are numbers, they stay as they come. -/
def setOrder (items : List Value) : List Value :=
  match items.mapM word? with
  | none => items
  | some words =>
    let placed := (places (tableSize words.length) [] words).zip items
    (placed.mergeSort fun a b => decide (a.1 ≤ b.1)).map (·.2)

end Ancestry.Yaml
