import Ancestry.Source.Entry
import Ancestry.Text.Quote
import Ancestry.Text.Recogniser
import Ancestry.Text.Space
import Ancestry.Text.Word

/-!
The pairs of an object literal: `key: value`, or a key alone where a comma or a closing brace
follows. Keys are word characters, values word characters and white space, both with or without
quotes. What has no such form is passed over.
-/

namespace Ancestry.Source
open Ancestry.Text

/-- Characters of a value. -/
def isValueChar (c : Char) : Bool :=
  isWord c || isSpace c

/-- A quote at the start of a text, if there is one, and what follows it. -/
def optionalQuote : List Char → List Char × List Char
  | [] => ([], [])
  | c :: s => if isQuote c then ([c], s) else ([], c :: s)

/-- Reads a key with the quotes around it. -/
def key? (s : List Char) : Option (List Char × List Char) :=
  let (opening, s) := optionalQuote s
  match s.takeWhile isWord with
  | [] => none
  | word =>
    let (closing, rest) := optionalQuote (s.dropWhile isWord)
    some (opening ++ word ++ closing, rest)

/-- Reads a value that starts with a quote or a word character. -/
def filledValue? (s : List Char) : Option (List Char × List Char) :=
  let (opening, s) := optionalQuote s
  match s.takeWhile isValueChar with
  | [] => none
  | run =>
    let (closing, rest) := optionalQuote (s.dropWhile isValueChar)
    some (opening ++ run ++ closing, rest)

/-- Reads the value behind a colon. Where no value begins, the last white space character before
that place is the value, together with a quote behind it. -/
def value? (s : List Char) : Option (List Char × List Char) :=
  match filledValue? (s.dropWhile isSpace) with
  | some found => some found
  | none =>
    match s.takeWhile isSpace with
    | [] => none
    | gap =>
      let (closing, rest) := optionalQuote (s.dropWhile isSpace)
      some (gap.drop (gap.length - 1) ++ closing, rest)

/-- The text that a written key or value stands for. -/
def unquoted (written : List Char) : String :=
  String.ofList (dropQuotes (trim written))

/-- Reads a value behind white space and a colon. -/
def colonValue? (s : List Char) : Option (List Char × List Char) :=
  match s.dropWhile isSpace with
  | ':' :: t => value? t
  | _ => none

/-- Whether a key alone may end here. -/
def endsItem (s : List Char) : Bool :=
  match s.dropWhile isSpace with
  | c :: _ => c == '\x7d' || c == ','
  | [] => false

/-- Reads one pair. -/
def readPair? (s : List Char) : Option (Entry × List Char) := do
  let (key, rest) ← key? s
  match colonValue? rest with
  | some (value, rest) => some (⟨unquoted key, unquoted value⟩, rest)
  | none => if endsItem rest then some (⟨unquoted key, unquoted key⟩, rest) else none

theorem length_optionalQuote (s : List Char) :
    (optionalQuote s).1.length + (optionalQuote s).2.length = s.length := by
  unfold optionalQuote
  split
  · rfl
  · split <;> simp +arith

theorem length_key? {s key rest : List Char} (h : key? s = some (key, rest)) :
    rest.length < s.length := by
  have h₁ := length_optionalQuote s
  unfold key? at h
  simp only at h
  split at h
  · simp at h
  · rename_i hne
    have hw := List.takeWhile_append_dropWhile (p := isWord) (l := (optionalQuote s).2)
    have hl := congrArg List.length hw
    have h₂ := length_optionalQuote ((optionalQuote s).2.dropWhile isWord)
    have hp := List.length_pos_iff.2 hne
    simp only [List.length_append] at hl
    simp only [Option.some.injEq, Prod.mk.injEq] at h
    rw [← h.2]
    omega

theorem length_filledValue? {s value rest : List Char}
    (h : filledValue? s = some (value, rest)) : rest.length ≤ s.length := by
  have h₁ := length_optionalQuote s
  unfold filledValue? at h
  simp only at h
  split at h
  · simp at h
  · have h₂ := length_optionalQuote ((optionalQuote s).2.dropWhile isValueChar)
    have h₃ := length_dropWhile_le isValueChar (optionalQuote s).2
    simp only [Option.some.injEq, Prod.mk.injEq] at h
    rw [← h.2]
    omega

theorem length_value? {s value rest : List Char} (h : value? s = some (value, rest)) :
    rest.length ≤ s.length := by
  have hd := length_dropWhile_le isSpace s
  unfold value? at h
  split at h
  · rename_i hv
    rw [Option.some.injEq] at h
    subst h
    have := length_filledValue? hv
    omega
  · split at h
    · simp at h
    · have h₂ := length_optionalQuote (s.dropWhile isSpace)
      simp only [Option.some.injEq, Prod.mk.injEq] at h
      rw [← h.2]
      omega

theorem length_colonValue? {s value rest : List Char} (h : colonValue? s = some (value, rest)) :
    rest.length ≤ s.length := by
  have hd := length_dropWhile_le isSpace s
  unfold colonValue? at h
  split at h
  · rename_i t ht
    have := length_value? h
    simp [ht] at hd
    omega
  · simp at h

/-- The pairs of an object literal. -/
def pair : Recogniser Entry where
  read := readPair?
  shrinks := by
    intro s e rest h
    simp only [readPair?, bind, Option.bind_eq_some_iff, Prod.exists] at h
    obtain ⟨key, r, hk, h⟩ := h
    have hk := length_key? hk
    split at h
    · rename_i hv
      have := length_colonValue? hv
      simp only [Option.some.injEq, Prod.mk.injEq] at h
      rw [← h.2]
      omega
    · simp only [Option.ite_none_right_eq_some, Option.some.injEq, Prod.mk.injEq] at h
      rwa [← h.2.2]

/-- The entries of an object literal, in written order. -/
def objectEntries (s : List Char) : List Entry :=
  pair.all s

end Ancestry.Source
