import Ancestry.Proofs.Source.Calls
import Ancestry.Proofs.Source.Captures
import Mathlib.Data.List.Basic

/-!
Provide calls as they are written: the search finds each of them, whatever stands between them as
long as it lacks the word `provide`, and a call of a quoted key and a quoted value gives back both.
-/

namespace Ancestry.Source
open Ancestry.Text

/-- A call that can be read back: white space before the parentheses, and no closing one within. -/
structure Call.Proper (c : Call) : Prop where
  gap : ∀ x ∈ c.gap, isSpace x
  body : ')' ∉ c.body

variable {c : Call}

theorem Call.text_eq (c : Call) :
    c.text = "provide".toList ++ (c.gap ++ '(' :: (c.body ++ [')'])) := by
  have ht : c.text = "provide".toList ++ c.gap ++ ['('] ++ c.body ++ [')'] := rfl
  simp only [ht, List.append_assoc, List.cons_append, List.nil_append]

theorem Call.text_append (c : Call) (rest : List Char) :
    c.text ++ rest = "provide".toList ++ (c.gap ++ '(' :: (c.body ++ ')' :: rest)) := by
  simp only [c.text_eq, List.append_assoc, List.cons_append, List.nil_append]

theorem Call.head?_text (c : Call) (rest : List Char) : (c.text ++ rest).head? = some 'p' := by
  have hp : "provide".toList = 'p' :: "rovide".toList := by decide
  rw [c.text_append, hp, List.cons_append, List.head?_cons]

theorem callStart?_append {gap : List Char} (hg : ∀ x ∈ gap, isSpace x) (inside : List Char) :
    callStart? ("provide".toList ++ (gap ++ '(' :: inside)) = some (gap, inside) := by
  have hp : isSpace '(' = false := by decide
  rw [callStart?, after?_append]
  simp only [bind, Option.bind_some, dropWhile_stop hg hp, takeWhile_stop hg hp]

theorem callStart?_text (h : c.Proper) (rest : List Char) :
    callStart? (c.text ++ rest) = some (c.gap, c.body ++ ')' :: rest) := by
  rw [c.text_append, callStart?_append h.gap]

theorem callStart?_cons {x : Char} (hx : x ≠ 'p') (s : List Char) : callStart? (x :: s) = none := by
  have hp : "provide".toList = 'p' :: "rovide".toList := by decide
  rw [callStart?, hp, after?, if_neg (Ne.symm hx)]
  rfl

theorem readCall?_text (h : c.Proper) (rest : List Char) :
    readCall? (c.text ++ rest) = some (c, rest) := by
  rw [readCall?, callStart?_text h]
  simp only [bind, Option.bind_some]
  rw [cut?_char h.body, Option.bind_some]

theorem all_call_text (h : c.Proper) (rest : List Char) :
    call.all (c.text ++ rest) = c :: call.all rest :=
  call.all_of_read (readCall?_text h rest)

/-- No call begins in a text without the word, also not with the first letters of what follows. -/
theorem all_call_gap {gap s : List Char} (hg : ¬ "provide".toList <:+: gap)
    (hs : ∀ x ∈ s.head?, x = 'p') : call.all (gap ++ s) = call.all s := by
  refine call.all_append_of_none fun t ht htg => readCall?_eq_none ?_
  refine after?_append_eq_none ht (fun hm => hg (hm.trans htg.isInfix)) fun x hx => ?_
  -- no other letter of the word is its first one
  rw [hs x hx]
  decide

/-- The calls of a text that is put together from calls and gaps without the word. -/
theorem all_call_flatMap {items : List (List Char × Call)}
    (hi : ∀ i ∈ items, ¬ "provide".toList <:+: i.1 ∧ i.2.Proper)
    {last : List Char} (hl : ¬ "provide".toList <:+: last) :
    call.all (items.flatMap (fun i => i.1 ++ i.2.text) ++ last) = items.map (·.2) := by
  have hn : call.all last = [] := by
    have h := all_call_gap (s := []) hl (by simp)
    rwa [List.append_nil, call.all_nil] at h
  have ht : ∀ i ∈ items, ∀ rest, call.all ((i.1 ++ i.2.text) ++ rest) = i.2 :: call.all rest := by
    intro i hm rest
    obtain ⟨hg, hc⟩ := hi i hm
    rw [List.append_assoc, all_call_gap hg, all_call_text hc]
    simp [i.2.head?_text]
  rw [call.all_flatMap ht, hn, List.append_nil]

theorem arguments_text (h : c.Proper) : arguments c.text = [c.argument] := by
  have hf := c.head?_text []
  have hc := callStart?_text h []
  have ha := all_call_text h []
  rw [List.append_nil] at hf hc ha
  have ht : trimLeft c.text = c.text := by
    refine dropWhile_eq_self fun x hx => ?_
    rw [← Option.some.inj (hf.symm.trans hx)]
    decide
  rw [arguments_eq, ht, hc, Option.isSome_some, if_pos rfl, ha, call.all_nil, List.map_singleton]

/-- Entries, or the one that says that there are none. -/
def orUnreadable (entries : List Entry) : List Entry :=
  if entries = [] then [.unreadable] else entries

theorem provideEntries_eq (text : String) :
    provideEntries text = orUnreadable ((arguments text.toList).flatMap argumentEntries) := by
  rw [provideEntries, orUnreadable]
  split
  · rename_i h
    rw [h, if_pos rfl]
  · rename_i h
    rw [if_neg h]

theorem provideEntries_call (h : c.Proper) :
    provideEntries (String.ofList c.text) = orUnreadable (argumentEntries c.argument) := by
  rw [provideEntries_eq, String.toList_ofList, arguments_text h, List.flatMap_singleton]

/-- What a call gives is what its argument gives, if that is something. -/
theorem provideEntries_text (h : c.Proper) (hn : argumentEntries c.argument ≠ []) :
    provideEntries (String.ofList c.text) = argumentEntries c.argument := by
  rw [provideEntries_call h, orUnreadable, if_neg hn]

theorem unquoted_quoted {gap : List Char} (hg : ∀ x ∈ gap, isSpace x) {a b : Char}
    (ha : isQuote a) (hb : isQuote b) (s : List Char) :
    unquoted (gap ++ a :: (s ++ [b])) = String.ofList s := by
  rw [unquoted, trim_append hg, trim_between (isSpace_eq_false_of_isQuote ha)
    (isSpace_eq_false_of_isQuote hb), dropQuotes_quoted ha hb]

/-- A key and a value, each in quotes, as the arguments of a call. -/
def quotedArguments (key value : List Char) : List Char :=
  '\'' :: (key ++ ['\'']) ++ ',' :: ([' '] ++ '\'' :: (value ++ ['\'']))

theorem ne_comma_of_mem {key : List Char} (hc : ',' ∉ key) :
    ∀ x ∈ key, decide (x ≠ ',') = true := by
  intro x hx
  rw [decide_eq_true_eq]
  rintro rfl
  exact hc hx

theorem twoArguments_divided {key value : List Char} (hc : ',' ∉ key) (hk : key ≠ [])
    (hv : value ≠ []) :
    twoArguments (key ++ ',' :: value) = ⟨unquoted key, unquoted value⟩ := by
  have hs := ne_comma_of_mem hc
  obtain ⟨k, key, rfl⟩ := List.exists_cons_of_ne_nil hk
  obtain ⟨v, value, rfl⟩ := List.exists_cons_of_ne_nil hv
  rw [twoArguments, takeWhile_stop hs (by decide), dropWhile_stop hs (by decide)]

theorem twoArguments_quoted {key : List Char} (hk : ',' ∉ key) (value : List Char) :
    twoArguments (quotedArguments key value) = ⟨String.ofList key, String.ofList value⟩ := by
  have hq : isQuote '\'' := by decide
  have hn : ∀ x ∈ [], isSpace x := by simp
  have hb : ∀ x ∈ [' '], isSpace x := List.forall_mem_singleton.2 (by decide)
  have hc : ',' ∉ '\'' :: (key ++ ['\'']) := by simp [hk]
  have hkey : unquoted ('\'' :: (key ++ ['\''])) = String.ofList key :=
    unquoted_quoted hn hq hq key
  have hvalue : unquoted ([' '] ++ '\'' :: (value ++ ['\''])) = String.ofList value :=
    unquoted_quoted hb hq hq value
  rw [quotedArguments, twoArguments_divided hc (by simp) (by simp), hkey, hvalue]

theorem argumentEntries_quoted {key : List Char} (hk : ',' ∉ key) (value : List Char) :
    argumentEntries (trim (quotedArguments key value)) =
      [⟨String.ofList key, String.ofList value⟩] := by
  have hm : quotedArguments key value =
      '\'' :: ((key ++ ['\'', ',', ' ', '\''] ++ value) ++ ['\'']) := by
    simp [quotedArguments]
  have ht : trim (quotedArguments key value) = quotedArguments key value := by
    rw [hm, trim_between (by decide) (by decide)]
  rw [ht, argumentEntries, if_neg (by simp [quotedArguments]), twoArguments_quoted hk]

/-- A value that a call binds to a key, and the text before the call. -/
structure Binding where
  before : String
  key : String
  value : String

namespace Binding

/-- The call as it is written. -/
def written (b : Binding) : String :=
  "provide('" ++ b.key ++ "', '" ++ b.value ++ "')"

def entry (b : Binding) : Entry :=
  ⟨b.key, b.value⟩

/-- Nothing before the call is mistaken for one, and nothing within ends it or its key. -/
structure Plain (b : Binding) : Prop where
  before : ¬ "provide".toList <:+: b.before.toList
  key : ',' ∉ b.key.toList ∧ ')' ∉ b.key.toList
  value : ')' ∉ b.value.toList

def toCall (b : Binding) : Call :=
  ⟨[], quotedArguments b.key.toList b.value.toList⟩

theorem toList_written (b : Binding) : b.written.toList = b.toCall.text := by
  have h₁ : "provide('".toList = "provide".toList ++ ['(', '\''] := by decide
  have h₂ : "', '".toList = ['\'', ',', ' ', '\''] := by decide
  have h₃ : "')".toList = ['\'', ')'] := by decide
  rw [b.toCall.text_eq]
  simp only [written, toCall, quotedArguments, String.toList_append, h₁, h₂, h₃,
    List.append_assoc, List.cons_append, List.nil_append]

theorem Plain.proper {b : Binding} (h : b.Plain) : b.toCall.Proper := by
  refine ⟨by simp [toCall], ?_⟩
  simp [toCall, quotedArguments, h.key.2, h.value]

theorem Plain.provideEntries {b : Binding} (h : b.Plain) :
    provideEntries b.written = [b.entry] := by
  have ha : argumentEntries b.toCall.argument = [b.entry] := by
    rw [Call.argument, toCall, argumentEntries_quoted h.key.1, String.ofList_toList,
      String.ofList_toList, entry]
  rw [← String.ofList_toList (s := b.written), toList_written, provideEntries_text h.proper, ha]
  simp [ha]

theorem Plain.isValid {b : Binding} (h : b.Plain) : b.entry.isValid := by
  rw [Entry.isValid, decide_eq_true_eq]
  intro hu
  have hk : b.key = Entry.unreadable.key := congrArg Entry.key hu
  exact h.key.2 (hk ▸ by decide)

end Binding

/-- From a text of calls with a quoted key and a quoted value each, however they look and whatever
stands between them, the search recovers every call, and reading the calls every key and value. -/
theorem bindings_recovered (bindings : List Binding) (last : String)
    (hb : ∀ b ∈ bindings, b.Plain) (hl : ¬ "provide".toList <:+: last.toList) :
    let text := String.join (bindings.map fun b => b.before ++ b.written) ++ last
    provideCalls text = bindings.map Binding.written ∧
      allEntries (provideCalls text) = bindings.map Binding.entry ∧
      ∀ e ∈ allEntries (provideCalls text), e.isValid := by
  intro text
  let items := bindings.map fun b => (b.before.toList, b.toCall)
  have htext : text.toList = items.flatMap (fun i => i.1 ++ i.2.text) ++ last.toList := by
    simp [text, items, String.toList_join, List.flatMap_map, Binding.toList_written]
  have hcalls : provideCalls text = bindings.map Binding.written := by
    have hi : ∀ i ∈ items, ¬ "provide".toList <:+: i.1 ∧ i.2.Proper := by
      intro i hi
      obtain ⟨b, hm, rfl⟩ := List.mem_map.1 hi
      exact ⟨(hb b hm).before, (hb b hm).proper⟩
    rw [provideCalls, htext, all_call_flatMap hi hl, List.map_map, List.map_map]
    refine List.map_congr_left fun b _ => ?_
    simp [← Binding.toList_written]
  have hentries : allEntries (provideCalls text) = bindings.map Binding.entry := by
    rw [hcalls, allEntries, List.flatMap_map, List.map_eq_flatMap]
    exact List.flatMap_congr fun b hm => (hb b hm).provideEntries
  refine ⟨hcalls, hentries, fun e he => ?_⟩
  rw [hentries] at he
  obtain ⟨b, hm, rfl⟩ := List.mem_map.1 he
  exact (hb b hm).isValid

theorem bindings_recovered_nested :
    let bindings : List Binding := [⟨"pro", "a'provide(b", "x,\n'"⟩, ⟨"vide", "", ""⟩]
    let text := "proprovide('a'provide(b', 'x,\n'')videprovide('', '')provid"
    (∀ b ∈ bindings, b.Plain) ∧ (¬ "provide".toList <:+: "provid".toList) ∧
      provideCalls text = ["provide('a'provide(b', 'x,\n'')", "provide('', '')"] ∧
      allEntries (provideCalls text) = [⟨"a'provide(b", "x,\n'"⟩, ⟨"", ""⟩] := by
  intro bindings text
  have hb : ∀ b ∈ bindings, b.Plain := by
    intro b hb
    simp only [bindings, List.mem_cons, List.not_mem_nil, or_false] at hb
    rcases hb with rfl | rfl <;> exact ⟨by decide, by decide, by decide⟩
  have hl : ¬ "provide".toList <:+: "provid".toList := by decide
  obtain ⟨hcalls, hentries, -⟩ := bindings_recovered bindings "provid" hb hl
  exact ⟨hb, hl, hcalls, hentries⟩

end Ancestry.Source
