import Ancestry.Source.Pair

/-!
Provide calls: the word `provide`, optional white space and an argument in parentheses, which ends at
the first closing one. An argument is an object literal or a key and a value with a comma between.
-/

namespace Ancestry.Source
open Ancestry.Text

/-- A provide call: the white space before its parentheses and the text between them. -/
structure Call where
  gap : List Char
  body : List Char
  deriving DecidableEq

/-- The call as it is written. -/
def Call.text (c : Call) : List Char :=
  "provide".toList ++ c.gap ++ ['('] ++ c.body ++ [')']

/-- The text behind the opening parenthesis of a call, and the white space before it. -/
def callStart? (s : List Char) : Option (List Char × List Char) := do
  let gap ← after? "provide".toList s
  match gap.dropWhile isSpace with
  | '(' :: inside => some (gap.takeWhile isSpace, inside)
  | _ => none

def readCall? (s : List Char) : Option (Call × List Char) := do
  let (gap, inside) ← callStart? s
  let (body, rest) ← cut? [')'] inside
  some (⟨gap, body⟩, rest)

theorem length_callStart? {s gap inside : List Char} (h : callStart? s = some (gap, inside)) :
    inside.length < s.length := by
  simp only [callStart?, bind, Option.bind_eq_some_iff] at h
  obtain ⟨g, h₁, h⟩ := h
  have := length_of_after? h₁
  have hd := length_dropWhile_le isSpace g
  split at h
  · rename_i inside' hi
    simp only [Option.some.injEq, Prod.mk.injEq] at h
    simp [hi] at hd
    simp only [← h.2]
    omega
  · simp at h

/-- The provide calls of a text. -/
def call : Recogniser Call where
  read := readCall?
  shrinks := by
    intro s c rest h
    simp only [readCall?, bind, Option.bind_eq_some_iff, Prod.exists] at h
    obtain ⟨gap, inside, h₁, body, rest', h₂, h⟩ := h
    have := length_callStart? h₁
    have := length_of_cut? h₂
    simp only [Option.some.injEq, Prod.mk.injEq] at h
    simp only [← h.2]
    omega

/-- Reads white space and a closing parenthesis. -/
def close? (s : List Char) : Option (List Char) :=
  after? [')'] (s.dropWhile isSpace)

/-- Reads a call and yields its argument without the white space around it. -/
def readArgument? (s : List Char) : Option (List Char × List Char) := do
  let (_, inside) ← callStart? s
  upTo? close? (inside.dropWhile isSpace)

theorem length_close? {s rest : List Char} (h : close? s = some rest) :
    rest.length < s.length := by
  have ha := length_of_after? h
  have hd := length_dropWhile_le isSpace s
  rw [List.length_singleton] at ha
  omega

/-- The arguments of the provide calls of a text. -/
def calledArgument : Recogniser (List Char) where
  read := readArgument?
  shrinks := by
    intro s argument rest h
    simp only [readArgument?, bind, Option.bind_eq_some_iff, Prod.exists] at h
    obtain ⟨gap, inside, h₁, h₂⟩ := h
    have := length_callStart? h₁
    have := length_dropWhile_le isSpace inside
    have := length_upTo? length_close? h₂
    omega

/-- The texts of all provide calls, in written order. -/
def provideCalls (text : String) : List String :=
  (call.all text.toList).map fun c => String.ofList c.text

/-- Reads a key and a value divided by the first comma; neither may be missing. -/
def twoArguments (argument : List Char) : Entry :=
  match argument.takeWhile (· ≠ ','), argument.dropWhile (· ≠ ',') with
  | key@(_ :: _), _ :: value@(_ :: _) => ⟨unquoted key, unquoted value⟩
  | _, _ => .unreadable

/-- The entries of one argument. An object literal may have none. -/
def argumentEntries (argument : List Char) : List Entry :=
  if argument.head? = some '\x7b' then objectEntries argument else [twoArguments argument]

/-- The arguments in a text. A text that starts with a call holds one argument in each of its calls;
any other text is an argument itself, unless it is blank. -/
def arguments (s : List Char) : List (List Char) :=
  if (callStart? (trimLeft s)).isSome then (calledArgument.all s).map trim
  else if trim s = [] then [] else [trim s]

/-- The entries of a call text or of a bare argument. There is always one, which says that nothing
could be read where nothing could be read. -/
def provideEntries (text : String) : List Entry :=
  match (arguments text.toList).flatMap argumentEntries with
  | [] => [.unreadable]
  | entries => entries

/-- The entries of several call texts, in order. -/
def allEntries (texts : List String) : List Entry :=
  texts.flatMap provideEntries

end Ancestry.Source
