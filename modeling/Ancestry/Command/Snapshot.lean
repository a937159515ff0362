import Ancestry.Calendar.Iso
import Ancestry.Disk.Tree
import Ancestry.Number.Numeral

/-!
Snapshots: the surroundings of a run in lines of text. The first line is the time, the second one
the working directory, and each further one a file: its path, a tab and its bytes in hexadecimal. A
line without a tab is a directory.
-/

namespace Ancestry.Command
open Ancestry.Calendar

structure Snapshot where
  now : Moment
  here : Path
  tree : Disk.Tree

namespace Snapshot

/-- Bytes from pairs of hexadecimal digits. -/
def bytes? : List Char → Option (List UInt8)
  | [] => some []
  | a :: b :: rest => do
    let high ← (Number.digit? a).filter (· < 16)
    let low ← (Number.digit? b).filter (· < 16)
    return (high * 16 + low).toUInt8 :: (← bytes? rest)
  | [_] => none

/-- Adds the item on a line to a tree. -/
def addItem? (here : Path) (tree : Disk.Tree) (line : String) : Option Disk.Tree :=
  let name := line.toList.takeWhile (· ≠ '\t')
  let place := (here.resolve (Path.ofString (String.ofList name))).parts
  match line.toList.drop name.length with
  | [] => some (tree.write place .directory)
  | _ :: digits => (bytes? digits).map fun bytes => tree.write place (.file bytes)

/-- The snapshot that lines describe. -/
def ofLines? : List String → Option Snapshot
  | time :: directory :: items => do
    let now ← (Moment.ofIso time).toOption
    let here := Path.ofString directory
    let tree ← items.foldlM (addItem? here) (Disk.Tree.empty.write here.parts .directory)
    return ⟨now, here, tree⟩
  | _ => none

end Snapshot
end Ancestry.Command
