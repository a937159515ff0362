import Ancestry.Proofs.Source.WrittenCalls

/-!
Flat object literals as they are written: keys with a quoted value and keys alone, with commas
between. Each item is read as a whole, and none of it goes to the next one.
-/

namespace Ancestry.Source
open Ancestry.Text

variable {s rest key value : List Char} {c : Char}

theorem optionalQuote_cons (h : isQuote c = false) (s : List Char) :
    optionalQuote (c :: s) = ([], c :: s) := by
  simp [optionalQuote, h]

theorem optionalQuote_quote (h : isQuote c) (s : List Char) :
    optionalQuote (c :: s) = ([c], s) := by
  simp [optionalQuote, h]

theorem key?_append (hn : key ≠ []) (hk : ∀ x ∈ key, isWord x) (hw : isWord c = false)
    (hq : isQuote c = false) : key? (key ++ c :: rest) = some (key, c :: rest) := by
  obtain ⟨a, word, rfl⟩ := List.exists_cons_of_ne_nil hn
  have ha := isQuote_eq_false_of_isWord (hk a (by simp))
  rw [List.cons_append, key?]
  simp only [optionalQuote_cons ha]
  rw [← List.cons_append, takeWhile_stop hk hw, dropWhile_stop hk hw]
  simp only [optionalQuote_cons hq, List.nil_append, List.append_nil]

theorem colonValue?_quoted (hn : value ≠ []) (hv : ∀ x ∈ value, isValueChar x)
    (rest : List Char) :
    colonValue? (':' :: ' ' :: '\'' :: (value ++ '\'' :: rest)) =
      some ('\'' :: (value ++ ['\'']), rest) := by
  have hq : isQuote '\'' := by decide
  have he : isValueChar '\'' = false := by decide
  obtain ⟨a, run, rfl⟩ := List.exists_cons_of_ne_nil hn
  have hf : filledValue? ('\'' :: ((a :: run) ++ '\'' :: rest)) =
      some ('\'' :: ((a :: run) ++ ['\'']), rest) := by
    rw [filledValue?]
    simp only [optionalQuote_quote hq]
    rw [takeWhile_stop hv he, dropWhile_stop hv he]
    simp only [optionalQuote_quote hq, List.cons_append, List.nil_append]
  have hs : (' ' :: '\'' :: ((a :: run) ++ '\'' :: rest)).dropWhile isSpace =
      '\'' :: ((a :: run) ++ '\'' :: rest) := by
    rw [List.dropWhile_cons_of_pos (by decide), List.dropWhile_cons_of_neg (by decide)]
  rw [colonValue?, List.dropWhile_cons_of_neg (by decide)]
  simp only [value?, hs, hf]

theorem colonValue?_eq_none (h : endsItem s) : colonValue? s = none := by
  unfold endsItem at h
  unfold colonValue?
  split
  · rename_i t ht
    simp [ht] at h
  · rfl

/-- What ends an item begins neither with a word nor with a quote. -/
theorem exists_cons_of_endsItem (h : endsItem s) :
    ∃ c t, s = c :: t ∧ isWord c = false ∧ isQuote c = false := by
  cases s with
  | nil => cases h
  | cons c t =>
    refine ⟨c, t, rfl, ?_⟩
    by_cases hc : isSpace c
    · have hw : ¬ isWord c := fun hw => by simp [isSpace_eq_false_of_isWord hw] at hc
      have hq : ¬ isQuote c := fun hq => by simp [isSpace_eq_false_of_isQuote hq] at hc
      exact ⟨Bool.eq_false_iff.2 hw, Bool.eq_false_iff.2 hq⟩
    · rw [endsItem, List.dropWhile_cons_of_neg hc, Bool.or_eq_true, beq_iff_eq, beq_iff_eq] at h
      rcases h with rfl | rfl <;> decide

theorem unquoted_word (hk : ∀ x ∈ key, isWord x) : unquoted key = String.ofList key := by
  have ht : trim key = key := by
    apply trim_eq_self
    · intro x hx
      exact isSpace_eq_false_of_isWord (hk x (List.mem_of_mem_head? hx))
    · intro x hx
      exact isSpace_eq_false_of_isWord (hk x (List.mem_of_mem_getLast? hx))
  rw [unquoted, ht, dropQuotes_eq_self fun x hx => isQuote_eq_false_of_isWord (hk x hx)]

theorem all_pair_cons (hw : isWord c = false) (hq : isQuote c = false) (s : List Char) :
    pair.all (c :: s) = pair.all s := by
  have hk : key? (c :: s) = none := by
    simp [key?, optionalQuote_cons hq, hw]
  refine pair.all_cons_of_none ?_
  change readPair? (c :: s) = none
  rw [readPair?, hk]
  rfl

/-- An item of an object literal: a key and a value, or a key alone that stands for both. -/
inductive Item where
  | pair (key value : String)
  | shorthand (key : String)

namespace Item

def written : Item → String
  | pair key value => key ++ ": '" ++ value ++ "'"
  | shorthand key => key

def entry : Item → Entry
  | pair key value => ⟨key, value⟩
  | shorthand key => ⟨key, key⟩

/-- The key is a word, and the value has nothing but words and white space. Neither is empty. -/
def Plain : Item → Prop
  | pair key value =>
    (key ≠ "" ∧ ∀ c ∈ key.toList, isWord c) ∧ value ≠ "" ∧ ∀ c ∈ value.toList, isValueChar c
  | shorthand key => key ≠ "" ∧ ∀ c ∈ key.toList, isWord c

/-- An item is read up to its end, whatever ends it. -/
theorem Plain.readPair? {i : Item} (h : i.Plain) (hr : endsItem rest) :
    readPair? (i.written.toList ++ rest) = some (i.entry, rest) := by
  have hq : isQuote '\'' := by decide
  have hs : ∀ x ∈ [], isSpace x := by simp
  cases i with
  | pair key value =>
    obtain ⟨⟨hn, hk⟩, hn', hv⟩ := h
    have ht : (pair key value).written.toList ++ rest =
        key.toList ++ ':' :: ' ' :: '\'' :: (value.toList ++ '\'' :: rest) := by
      simp [written]
    have hu : unquoted ('\'' :: (value.toList ++ ['\''])) = value := by
      rw [← List.nil_append ('\'' :: _), unquoted_quoted hs hq hq, String.ofList_toList]
    rw [ht, Source.readPair?, key?_append (by simpa using hn) hk (by decide) (by decide)]
    simp only [bind, Option.bind_some, colonValue?_quoted (by simpa using hn') hv, hu,
      unquoted_word hk, String.ofList_toList, entry]
  | shorthand key =>
    obtain ⟨hn, hk⟩ := h
    have hc := colonValue?_eq_none hr
    obtain ⟨c, t, rfl, hw, hq⟩ := exists_cons_of_endsItem hr
    rw [written, Source.readPair?, key?_append (by simpa using hn) hk hw hq]
    simp only [bind, Option.bind_some, hc, hr, if_true, unquoted_word hk, String.ofList_toList,
      entry]

theorem Plain.not_mem {i : Item} (h : i.Plain) : ∀ c ∈ i.written.toList, c ≠ ')' := by
  have hw : ∀ s : String, (∀ c ∈ s.toList, isWord c) → ')' ∉ s.toList := fun s hs hc =>
    absurd (hs _ hc) (by decide)
  rintro c hc rfl
  cases i with
  | pair key value =>
    obtain ⟨⟨-, hk⟩, -, hv⟩ := h
    have hp : ')' ∉ value.toList := fun hp => absurd (hv _ hp) (by decide)
    simp [written, hw key hk, hp] at hc
  | shorthand key => exact hw key h.2 hc

end Item

/-- An object literal of several items. -/
def literal (items : List Item) : String :=
  "\x7b " ++ ", ".intercalate (items.map Item.written) ++ " \x7d"

/-- The items in a row, the last one with the brace behind it. -/
def row (items : List Item) : List Char :=
  [',', ' '].intercalate (items.map (·.written.toList)) ++ [' ', '\x7d']

theorem toList_literal (items : List Item) :
    (literal items).toList = '\x7b' :: ' ' :: row items := by
  have hc : ", ".toList = [',', ' '] := by decide
  have ho : "\x7b ".toList = ['\x7b', ' '] := by decide
  have he : " \x7d".toList = [' ', '\x7d'] := by decide
  simp only [literal, row, String.toList_append, String.toList_intercalate, hc, ho, he,
    List.map_map, List.cons_append, List.nil_append]
  rfl

/-- Each item is read on its own: the comma or the brace behind it ends it. -/
theorem all_pair_row {i : Item} {items : List Item} (h : ∀ j ∈ i :: items, j.Plain) :
    pair.all (row (i :: items)) = (i :: items).map Item.entry := by
  have hi := h i (by simp)
  induction items generalizing i with
  | nil =>
    have hr : row [i] = i.written.toList ++ [' ', '\x7d'] := by simp [row]
    rw [hr, pair.all_of_read (hi.readPair? (by decide)), all_pair_cons (by decide) (by decide),
      all_pair_cons (by decide) (by decide), pair.all_nil, List.map_singleton]
  | cons j items ih =>
    have hr : row (i :: j :: items) = i.written.toList ++ ',' :: ' ' :: row (j :: items) := by
      simp [row, List.intercalate_cons_cons]
    have hj : ∀ k ∈ j :: items, k.Plain := fun k hk => h k (List.mem_cons_of_mem i hk)
    have he : endsItem (',' :: ' ' :: row (j :: items)) := rfl
    rw [hr, pair.all_of_read (hi.readPair? he), all_pair_cons (by decide) (by decide),
      all_pair_cons (by decide) (by decide), ih hj (hj j (by simp))]
    rfl

theorem trim_literal (items : List Item) :
    trim (literal items).toList = (literal items).toList := by
  have hr : (literal items).toList = '\x7b' :: (' ' :: ([',', ' '].intercalate
      (items.map (·.written.toList)) ++ [' ']) ++ ['\x7d']) := by
    simp [toList_literal, row]
  rw [hr, trim_between (by decide) (by decide)]

theorem objectEntries_literal {items : List Item} (hn : items ≠ []) (hp : ∀ i ∈ items, i.Plain) :
    objectEntries (literal items).toList = items.map Item.entry := by
  obtain ⟨i, items, rfl⟩ := List.exists_cons_of_ne_nil hn
  rw [objectEntries, toList_literal, all_pair_cons (by decide) (by decide),
    all_pair_cons (by decide) (by decide), all_pair_row hp]

theorem argumentEntries_literal (items : List Item) :
    argumentEntries (literal items).toList = objectEntries (literal items).toList := by
  rw [argumentEntries, if_pos (by simp [toList_literal])]

theorem arguments_literal (items : List Item) :
    arguments (literal items).toList = [(literal items).toList] := by
  have hs : callStart? (trimLeft (literal items).toList) = none := by
    rw [trimLeft, toList_literal, List.dropWhile_cons_of_neg (by decide),
      callStart?_cons (by decide)]
  rw [arguments, hs, trim_literal, Option.isSome_none, if_neg (by decide),
    if_neg (by simp [toList_literal])]

/-- The literal as the argument of a call. -/
def callOf (items : List Item) : Call :=
  ⟨[], (literal items).toList⟩

theorem proper_callOf {items : List Item} (hp : ∀ i ∈ items, i.Plain) : (callOf items).Proper := by
  refine ⟨by simp [callOf], fun hm => ?_⟩
  have hi : ∀ c ∈ [',', ' '].intercalate (items.map (·.written.toList)), c ≠ ')' := by
    refine forall_mem_intercalate (by simp) fun part hm => ?_
    obtain ⟨i, hi, rfl⟩ := List.mem_map.1 hm
    exact (hp i hi).not_mem
  simp only [callOf, toList_literal, row, List.mem_cons, List.mem_append] at hm
  simp at hm
  exact hi _ hm rfl

/-- A flat object literal gives its items in written order, on its own, as a bare argument and as
the argument of a call. -/
theorem literal_recovered (items : List Item) (hn : items ≠ []) (hp : ∀ i ∈ items, i.Plain) :
    objectEntries (literal items).toList = items.map Item.entry ∧
      provideEntries (literal items) = items.map Item.entry ∧
      provideEntries ("provide(" ++ literal items ++ ")") = items.map Item.entry := by
  have ho := objectEntries_literal hn hp
  have ha := argumentEntries_literal items
  have hne : items.map Item.entry ≠ [] := by simpa using hn
  refine ⟨ho, ?_, ?_⟩
  · rw [provideEntries, arguments_literal, List.flatMap_singleton, ha, ho]
    split
    · contradiction
    · rfl
  · have ht : "provide(" ++ literal items ++ ")" = String.ofList (callOf items).text := by
      have ho : "provide(".toList = "provide".toList ++ ['('] := by decide
      have he : ")".toList = [')'] := by decide
      rw [← String.toList_inj, String.toList_ofList, (callOf items).text_eq, callOf]
      simp only [String.toList_append, ho, he, List.append_assoc, List.cons_append,
        List.nil_append]
    have hc : argumentEntries (callOf items).argument = items.map Item.entry := by
      rw [Call.argument, callOf, trim_literal, ha, ho]
    rw [ht, provideEntries_text (proper_callOf hp) (hc ▸ hne), hc]

theorem literal_recovered_mixed :
    let items : List Item := [.shorthand "provide", .pair "size" " 4\n", .pair "naïve" "x y",
      .shorthand "_1"]
    let text := "\x7b provide, size: ' 4\n', naïve: 'x y', _1 \x7d"
    let entries : List Entry :=
      [⟨"provide", "provide"⟩, ⟨"size", " 4\n"⟩, ⟨"naïve", "x y"⟩, ⟨"_1", "_1"⟩]
    (items ≠ [] ∧ ∀ i ∈ items, i.Plain) ∧ objectEntries text.toList = entries ∧
      provideEntries text = entries ∧ provideEntries ("provide(" ++ text ++ ")") = entries := by
  intro items text entries
  have hp : ∀ i ∈ items, i.Plain := by
    intro i hi
    simp only [items, List.mem_cons, List.not_mem_nil, or_false] at hi
    rcases hi with rfl | rfl | rfl | rfl
    · exact ⟨by decide, List.all_eq_true.1 (by decide)⟩
    · exact ⟨⟨by decide, List.all_eq_true.1 (by decide)⟩, by decide, List.all_eq_true.1 (by decide)⟩
    · exact ⟨⟨by decide, List.all_eq_true.1 (by decide +kernel)⟩, by decide,
        List.all_eq_true.1 (by decide)⟩
    · exact ⟨by decide, List.all_eq_true.1 (by decide)⟩
  have hn : items ≠ [] := by simp [items]
  have ht : text = literal items := by decide +kernel
  rw [ht]
  exact ⟨⟨hn, hp⟩, literal_recovered items hn hp⟩

end Ancestry.Source
