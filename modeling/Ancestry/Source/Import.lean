import Ancestry.Source.Script
import Ancestry.Text.Quote
import Ancestry.Text.Space
import Ancestry.Text.Word

/-!
Import statements of a script and the names they bring in.

A statement is the word `import`, white space, a list of names, white space, the word `from`, white
space and a quoted path. The list may stand in braces. Reading is lenient: one brace may be missing,
since a list runs as far as its characters go.
-/

namespace Ancestry.Source
open Ancestry.Text

/-- Characters of a list of names. -/
def isListed (c : Char) : Bool :=
  isWord c || c == ',' || isSpace c

/-- The names of a list: its parts between commas, trimmed, without the empty ones. -/
def listedNames (list : List Char) : List (List Char) :=
  ((list.splitOn ',').map trim).filter (· ≠ [])

/-- Reads a quoted path of at least one character; the quotes need not agree. -/
def quotedPath? : List Char → Option (List Char)
  | [] => none
  | c :: s =>
    if isQuote c then
      match s.takeWhile (!isQuote ·), s.dropWhile (!isQuote ·) with
      | _ :: _, _ :: rest => some rest
      | _, _ => none
    else none

/-- Reads at least one white space character. -/
def spaces? : List Char → Option (List Char)
  | [] => none
  | c :: s => if isSpace c then some (s.dropWhile isSpace) else none

/-- Reads white space, the word `from`, white space and a quoted path. -/
def fromPath? (s : List Char) : Option (List Char) := do
  let word ← spaces? s
  let gap ← after? "from".toList word
  let path ← spaces? gap
  quotedPath? path

/-- The part of a run of list characters before its last four letters `from`, where one white space
character stands before the word and some after it. -/
def beforeFrom? (run : List Char) : Option (List Char) := do
  let word ← spaces? run.reverse
  match ← after? "morf".toList word with
  | c :: before => if isSpace c then some before.reverse else none
  | [] => none

/-- Reads a list of names behind the white space `lead` and the path that it comes from.
`braced` tells whether an opening brace stood between the two. -/
def importList? (lead : List Char) (braced : Bool) (s : List Char) :
    Option (List (List Char) × List Char) :=
  let run := s.takeWhile isListed
  let hasRoom := run ≠ [] || (!braced && 2 ≤ lead.length)
  match s.dropWhile isListed with
  | '\x7d' :: tail =>
    if hasRoom then (fromPath? tail).map fun rest => (listedNames run, rest) else none
  | tail => do
    let before ← beforeFrom? (if braced then run else lead ++ run)
    let rest ← quotedPath? tail
    if (if braced then 1 else 2) ≤ before.length then
      some (listedNames (if braced then before else before.drop lead.length), rest)
    else none

/-- Reads one import statement and yields the imported names. -/
def readImport? (s : List Char) : Option (List (List Char) × List Char) := do
  let gap ← after? "import".toList s
  let lead := gap.takeWhile isSpace
  if lead = [] then none
  else
    match gap.dropWhile isSpace with
    | '\x7b' :: list => importList? lead true list
    | list => importList? lead false list

theorem length_quotedPath? {s rest : List Char} (h : quotedPath? s = some rest) :
    rest.length ≤ s.length := by
  cases s with
  | nil => simp [quotedPath?] at h
  | cons c s =>
    have hd := length_dropWhile_le (!isQuote ·) s
    simp only [quotedPath?] at h
    split at h
    · split at h
      · rename_i hr
        simp only [hr, List.length_cons, ← Option.some.inj h] at hd ⊢
        omega
      · simp at h
    · simp at h

theorem length_spaces? {s rest : List Char} (h : spaces? s = some rest) :
    rest.length ≤ s.length := by
  cases s with
  | nil => simp [spaces?] at h
  | cons c s =>
    have hd := length_dropWhile_le isSpace s
    simp only [spaces?, Option.ite_none_right_eq_some, Option.some.injEq] at h
    simp only [← h.2, List.length_cons]
    omega

theorem length_fromPath? {s rest : List Char} (h : fromPath? s = some rest) :
    rest.length ≤ s.length := by
  simp only [fromPath?, bind, Option.bind_eq_some_iff] at h
  obtain ⟨word, h₁, gap, h₂, path, h₃, h₄⟩ := h
  have := length_spaces? h₁
  have := length_of_after? h₂
  have := length_spaces? h₃
  have := length_quotedPath? h₄
  omega

theorem length_importList? {lead s rest : List Char} {braced : Bool} {names : List (List Char)}
    (h : importList? lead braced s = some (names, rest)) : rest.length ≤ s.length := by
  have hd := length_dropWhile_le isListed s
  unfold importList? at h
  simp only at h
  split at h
  · rename_i tail ht
    split at h
    · simp only [Option.map_eq_some_iff, Prod.mk.injEq] at h
      obtain ⟨r, hr, _, rfl⟩ := h
      have := length_fromPath? hr
      simp [ht] at hd
      omega
    · simp at h
  · simp only [bind, Option.bind_eq_some_iff] at h
    obtain ⟨before, _, r, hr, h⟩ := h
    have := length_quotedPath? hr
    simp only [Option.ite_none_right_eq_some, Option.some.injEq, Prod.mk.injEq] at h
    rw [← h.2.2]
    omega

/-- Import statements, each with the names that it imports. -/
def importStatement : Recogniser (List (List Char)) where
  read := readImport?
  shrinks := by
    intro s names rest h
    simp only [readImport?, bind, Option.bind_eq_some_iff] at h
    obtain ⟨gap, hgap, h⟩ := h
    have hs := length_of_after? hgap
    have hd := length_dropWhile_le isSpace gap
    have hw : "import".toList.length = 6 := by decide
    split at h
    · simp at h
    · split at h
      · rename_i list hl
        have := length_importList? h
        simp only [hl, List.length_cons] at hd
        omega
      · have := length_importList? h
        omega

/-- The names imported by the scripts of a component, in written order. -/
def importedNames (text : String) : List String :=
  (importStatement.all (script text.toList)).flatten.map String.ofList

/-- Whether the scripts of a component import `name`. -/
def importsName (text name : String) : Bool :=
  (importedNames text).contains name

end Ancestry.Source
