import Ancestry.Proofs.Source.Decomposition
import Ancestry.Proofs.Source.ObjectLiterals

/-!
The entries that a call text gives. The entry for an unreadable argument has a closing parenthesis in
its key, and no argument has one; so only an argument from which nothing can be read gives it. A text
of several calls leaves out the object literals without a pair, where the calls taken one by one do not.
-/

namespace Ancestry.Source
open Ancestry.Text

variable {s a rest key value : List Char} {c : Call} {e : Entry}

section Keys

theorem dropTrailingQuote_sublist (s : List Char) : (dropTrailingQuote s).Sublist s := by
  fun_induction dropTrailingQuote s with
  | case1 => exact List.Sublist.refl []
  | case2 c hc => exact List.nil_sublist [c]
  | case3 c hc => exact List.Sublist.refl [c]
  | case4 c hc => exact List.sublist_cons_self c ['\n']
  | case5 c hc => exact List.Sublist.refl [c, '\n']
  | case6 c s _ _ ih => exact ih.cons_cons c

theorem dropQuotes_sublist (s : List Char) : (dropQuotes s).Sublist s := by
  cases s with
  | nil => exact List.Sublist.refl []
  | cons c s =>
    rw [dropQuotes, dropLeadingQuote]
    by_cases hc : isQuote c
    · rw [if_pos hc]
      exact (dropTrailingQuote_sublist s).cons c
    · rw [if_neg hc]
      exact dropTrailingQuote_sublist (c :: s)

theorem unquoted_sublist (s : List Char) : (unquoted s).toList.Sublist s := by
  rw [unquoted, String.toList_ofList]
  exact (dropQuotes_sublist (trim s)).trans (trim_sublist s)

theorem ne_unreadable (h : ')' ∉ e.key.toList) : e ≠ .unreadable := by
  rintro rfl
  exact h (by decide)

theorem isValid_eq_false_iff : e.isValid = false ↔ e = .unreadable := by
  simp [Entry.isValid]

theorem isQuote_of_mem_optionalQuote {x : Char} (h : x ∈ (optionalQuote s).1) : isQuote x := by
  unfold optionalQuote at h
  split at h
  · cases h
  · split at h
    · rename_i hq
      rwa [List.mem_singleton.1 h]
    · cases h

/-- A key is made of word characters, with quotes or without. -/
theorem isWord_or_isQuote_of_mem_key (h : key? s = some (key, rest)) :
    ∀ x ∈ key, isWord x ∨ isQuote x := by
  unfold key? at h
  simp only at h
  split at h
  · cases h
  · simp only [Option.some.injEq, Prod.mk.injEq] at h
    intro x hx
    rw [← h.1, List.mem_append, List.mem_append] at hx
    obtain (hx | hx) | hx := hx
    · exact .inr (isQuote_of_mem_optionalQuote hx)
    · exact .inl (List.mem_takeWhile_imp hx)
    · exact .inr (isQuote_of_mem_optionalQuote hx)

theorem readPair?_ne_unreadable (h : readPair? s = some (e, rest)) : e ≠ .unreadable := by
  simp only [readPair?, bind, Option.bind_eq_some_iff, Prod.exists] at h
  obtain ⟨key, behind, hk, h⟩ := h
  have he : e.key = unquoted key := by
    split at h
    · simp only [Option.some.injEq, Prod.mk.injEq] at h
      rw [← h.1]
    · simp only [Option.ite_none_right_eq_some, Option.some.injEq, Prod.mk.injEq] at h
      rw [← h.2.1]
  apply ne_unreadable
  rw [he]
  intro hm
  cases isWord_or_isQuote_of_mem_key hk ')' ((unquoted_sublist key).mem hm) with
  | inl hw => exact absurd hw (by decide)
  | inr hq => exact absurd hq (by decide)

theorem objectEntries_ne_unreadable (s : List Char) : ∀ e ∈ objectEntries s, e ≠ .unreadable :=
  pair.forall_mem_all readPair?_ne_unreadable s

end Keys

section Arguments

/-- No comma divides the argument into a key and a value. -/
def Undivided (a : List Char) : Prop :=
  ',' ∉ a ∨ a.head? = some ',' ∨ ∃ key, ',' ∉ key ∧ a = key ++ [',']

theorem twoArguments_of_undivided (h : Undivided a) : twoArguments a = .unreadable := by
  obtain hn | hf | ⟨key, hc, rfl⟩ := h
  · have hd : a.dropWhile (· ≠ ',') = [] := List.dropWhile_eq_nil_iff.2 (ne_comma_of_mem hn)
    rw [twoArguments, hd]
    cases a.takeWhile (· ≠ ',') <;> rfl
  · obtain ⟨t, rfl⟩ := List.head?_eq_some_iff.1 hf
    simp [twoArguments]
  · have hs := ne_comma_of_mem hc
    rw [twoArguments, takeWhile_stop hs (by decide), dropWhile_stop hs (by decide)]
    cases key <;> rfl

/-- Only an argument that no comma divides gives the entry for unreadable ones: any other gives a key
of its own characters. -/
theorem twoArguments_eq_unreadable_iff (hp : ')' ∉ a) :
    twoArguments a = .unreadable ↔ Undivided a := by
  constructor
  · intro h
    by_contra hu
    simp only [Undivided, not_or] at hu
    obtain ⟨hc, hf, hl⟩ := hu
    obtain ⟨key, value, rfl, hn⟩ := List.eq_append_cons_of_mem (not_not.1 hc)
    have hk : key ≠ [] := by
      rintro rfl
      exact hf rfl
    have hv : value ≠ [] := by
      rintro rfl
      exact hl ⟨key, hn, rfl⟩
    rw [twoArguments_divided hn hk hv] at h
    refine ne_unreadable ?_ h
    intro hm
    exact hp (List.mem_append_left _ ((unquoted_sublist key).mem hm))
  · exact twoArguments_of_undivided

theorem argumentEntries_object (h : a.head? = some '\x7b') :
    argumentEntries a = objectEntries a := by
  rw [argumentEntries, if_pos h]

theorem argumentEntries_two (h : a.head? ≠ some '\x7b') :
    argumentEntries a = [twoArguments a] := by
  rw [argumentEntries, if_neg h]

theorem argumentEntries_eq_nil_iff :
    argumentEntries a = [] ↔ a.head? = some '\x7b' ∧ objectEntries a = [] := by
  by_cases h : a.head? = some '\x7b'
  · simp [argumentEntries_object h, h]
  · simp [argumentEntries_two h, h]

/-- The entry for an unreadable argument never stands beside another one. -/
theorem unreadable_mem_argumentEntries_iff :
    .unreadable ∈ argumentEntries a ↔ argumentEntries a = [.unreadable] := by
  by_cases h : a.head? = some '\x7b'
  · have hn : Entry.unreadable ∉ argumentEntries a := by
      rw [argumentEntries_object h]
      exact fun hm => objectEntries_ne_unreadable a _ hm rfl
    refine iff_of_false hn fun he => hn ?_
    rw [he]
    exact List.mem_singleton_self _
  · rw [argumentEntries_two h, List.mem_singleton, List.singleton_inj, eq_comm]

theorem argumentEntries_eq_unreadable_iff (hp : ')' ∉ a) :
    argumentEntries a = [.unreadable] ↔ a.head? ≠ some '\x7b' ∧ Undivided a := by
  by_cases h : a.head? = some '\x7b'
  · rw [← unreadable_mem_argumentEntries_iff, argumentEntries_object h]
    exact iff_of_false (fun hm => objectEntries_ne_unreadable a _ hm rfl) fun hu => hu.1 h
  · rw [argumentEntries_two h, List.singleton_inj, twoArguments_eq_unreadable_iff hp]
    exact (and_iff_right h).symm

end Arguments

section OneCall

theorem proper_of_mem_all {s : List Char} : ∀ c ∈ call.all s, c.Proper :=
  call.forall_mem_all (fun h => (readCall?_eq_some h).2) s

theorem Call.Proper.not_mem_argument (h : c.Proper) : ')' ∉ c.argument := fun hm =>
  h.body ((trim_sublist c.body).mem hm)

theorem provideCalls_call (h : c.Proper) :
    provideCalls (String.ofList c.text) = [String.ofList c.text] := by
  have ha := all_call_text h []
  rw [List.append_nil, call.all_nil] at ha
  rw [provideCalls, String.toList_ofList, ha, List.map_singleton]

theorem orUnreadable_eq_iff {entries : List Entry} :
    orUnreadable entries = [.unreadable] ↔ entries = [] ∨ entries = [.unreadable] := by
  by_cases h : entries = []
  · simp [orUnreadable, h]
  · simp [orUnreadable, h]

/-- A call that was found is found again in its own text, with the argument that it encloses. It gives
the entry for an unreadable argument, and then no other, just if its argument is an object literal
without a pair, or no object literal and not divided by a comma. -/
theorem found_call_reads_back (text call : String) (h : call ∈ provideCalls text) :
    provideCalls call = [call] ∧ ∃ c : Call, c.Proper ∧ String.ofList c.text = call ∧
      arguments call.toList = [c.argument] ∧
      ((∃ e ∈ provideEntries call, e.isValid = false) ↔ provideEntries call = [.unreadable]) ∧
      (provideEntries call = [.unreadable] ↔
        c.argument.head? = some '\x7b' ∧ objectEntries c.argument = [] ∨
          c.argument.head? ≠ some '\x7b' ∧ Undivided c.argument) := by
  obtain ⟨c, hm, rfl⟩ := List.mem_map.1 h
  have hc := proper_of_mem_all c hm
  refine ⟨provideCalls_call hc, c, hc, rfl, ?_, ?_, ?_⟩
  · rw [String.toList_ofList, arguments_text hc]
  · simp only [isValid_eq_false_iff, exists_eq_right]
    rw [provideEntries_call hc, orUnreadable_eq_iff, ← unreadable_mem_argumentEntries_iff]
    by_cases hn : argumentEntries c.argument = []
    · simp [orUnreadable, hn]
    · simp [orUnreadable, hn]
  · rw [provideEntries_call hc, orUnreadable_eq_iff, argumentEntries_eq_nil_iff,
      argumentEntries_eq_unreadable_iff hc.not_mem_argument]

theorem found_call_reads_back_forged :
    let text := "provide( '(Non-valid provide syntax found)', '')"
    let call := "provide( '(Non-valid provide syntax found)"
    call ∈ provideCalls text ∧ provideCalls call = [call] ∧
      ∃ c : Call, c.Proper ∧ String.ofList c.text = call ∧ arguments call.toList = [c.argument] ∧
        (∃ e ∈ provideEntries call, e.isValid = false) ∧ provideEntries call = [.unreadable] ∧
        c.argument.head? ≠ some '\x7b' ∧ ',' ∉ c.argument := by
  intro text call
  have hm : call ∈ provideCalls text := by decide +kernel
  obtain ⟨hcalls, c, hp, ht, ha, hv, hu⟩ := found_call_reads_back text call hm
  have hc : c.argument = "'(Non-valid provide syntax found".toList := by
    have hk : arguments call.toList = ["'(Non-valid provide syntax found".toList] := by
      decide +kernel
    exact List.singleton_inj.1 (ha.symm.trans hk)
  have hf : c.argument.head? ≠ some '\x7b' := by
    rw [hc]
    decide
  have hn : ',' ∉ c.argument := by
    rw [hc]
    decide
  have he := hu.2 (.inr ⟨hf, .inl hn⟩)
  exact ⟨hm, hcalls, c, hp, ht, ha, hv.2 he, he, hf, hn⟩

end OneCall

section SeveralCalls

/-- The text starts with white space and a call, which need not be closed. -/
def StartsCall (s : List Char) : Prop :=
  ∃ lead gap inside, s = lead ++ ("provide".toList ++ (gap ++ '(' :: inside)) ∧
    (∀ x ∈ lead, isSpace x) ∧ ∀ x ∈ gap, isSpace x

theorem isSome_callStart?_iff : (callStart? (trimLeft s)).isSome ↔ StartsCall s := by
  constructor
  · intro h
    obtain ⟨⟨gap, inside⟩, hc⟩ := Option.isSome_iff_exists.1 h
    obtain ⟨hs, hg⟩ := callStart?_eq_some hc
    refine ⟨s.takeWhile isSpace, gap, inside, ?_, fun x hx => List.mem_takeWhile_imp hx, hg⟩
    rw [← hs, trimLeft, List.takeWhile_append_dropWhile]
  · rintro ⟨lead, gap, inside, rfl, hl, hg⟩
    have hw : "provide".toList = 'p' :: "rovide".toList := by decide
    rw [trimLeft, List.dropWhile_append_of_pos hl, dropWhile_eq_self (by simp [hw]; decide),
      callStart?_append hg, Option.isSome_some]

/-- Whether the argument of a call is an object literal without a pair. -/
def isPairless (call : String) : Bool :=
  (arguments call.toList).all fun a => a.head? = some '\x7b' && objectEntries a = []

theorem isPairless_call (h : c.Proper) :
    isPairless (String.ofList c.text) = decide (argumentEntries c.argument = []) := by
  rw [isPairless, String.toList_ofList, arguments_text h]
  simp [argumentEntries_eq_nil_iff]

theorem arguments_of_startsCall (h : StartsCall s) :
    arguments s = (call.all s).map Call.argument := by
  rw [arguments_eq, if_pos (isSome_callStart?_iff.2 h)]

theorem allEntries_provideCalls (text : String) :
    allEntries (provideCalls text) =
      (call.all text.toList).flatMap fun c => orUnreadable (argumentEntries c.argument) := by
  rw [allEntries, provideCalls, List.flatMap_map]
  exact List.flatMap_congr fun c hm => provideEntries_call (proper_of_mem_all c hm)

/-- Taken one by one, the items without an entry give one each. -/
theorem length_flatMap_orUnreadable {α : Type} (f : α → List Entry) (xs : List α) :
    (xs.flatMap fun x => orUnreadable (f x)).length =
      (xs.flatMap f).length + xs.countP (f · = []) := by
  induction xs with
  | nil => rfl
  | cons x xs ih =>
    rw [List.flatMap_cons, List.flatMap_cons, List.length_append, List.length_append,
      List.countP_cons, ih]
    by_cases hx : f x = []
    · simp [orUnreadable, hx]
      omega
    · simp [orUnreadable, hx]
      omega

theorem orUnreadable_flatMap_iff {α : Type} {f : α → List Entry} {xs : List α} (hn : xs ≠ []) :
    orUnreadable (xs.flatMap f) = (xs.flatMap fun x => orUnreadable (f x)) ↔
      xs.length = 1 ∨ ∀ x ∈ xs, f x ≠ [] := by
  constructor
  · intro h
    have hl := congrArg List.length h
    rw [length_flatMap_orUnreadable] at hl
    by_cases he : xs.flatMap f = []
    · have hc : xs.countP (f · = []) = xs.length := by
        simpa [List.countP_eq_length] using List.flatMap_eq_nil_iff.1 he
      rw [orUnreadable, if_pos he, he, hc] at hl
      simp only [List.length_cons, List.length_nil] at hl
      exact .inl (by omega)
    · rw [orUnreadable, if_neg he] at hl
      have hc : xs.countP (f · = []) = 0 := by omega
      rw [List.countP_eq_zero] at hc
      exact .inr fun x hx => by simpa using hc x hx
  · rintro (h | h)
    · obtain ⟨x, rfl⟩ := List.length_eq_one_iff.1 h
      rw [List.flatMap_singleton, List.flatMap_singleton]
    · have hf : xs.flatMap f ≠ [] := by
        obtain ⟨x, xs, rfl⟩ := List.exists_cons_of_ne_nil hn
        rw [List.flatMap_cons]
        exact List.append_ne_nil_of_left_ne_nil (h x List.mem_cons_self) _
      rw [orUnreadable, if_neg hf]
      exact List.flatMap_congr fun x hx => (if_neg (h x hx)).symm

theorem flatMap_filter_orUnreadable {α : Type} (f : α → List Entry) (xs : List α) :
    ((xs.filter (f · ≠ [])).flatMap fun x => orUnreadable (f x)) = xs.flatMap f := by
  induction xs with
  | nil => rfl
  | cons x xs ih =>
    by_cases hx : f x = []
    · rw [List.filter_cons_of_neg (by simpa using hx), ih, List.flatMap_cons, hx, List.nil_append]
    · rw [List.filter_cons_of_pos (by simpa using hx), List.flatMap_cons, List.flatMap_cons, ih,
        orUnreadable, if_neg hx]

/-- A text of calls gives the entries of those calls that are no object literal without a pair. So it
gives what the calls give one by one just if there is one call, or no such literal among them. -/
theorem entries_together_iff (text : String) (hs : StartsCall text.toList)
    (hc : provideCalls text ≠ []) :
    (provideEntries text = allEntries (provideCalls text) ↔
      (provideCalls text).length = 1 ∨ ∀ call ∈ provideCalls text, isPairless call = false) ∧
    provideEntries text =
      orUnreadable (allEntries ((provideCalls text).filter fun call => !isPairless call)) := by
  have hn : call.all text.toList ≠ [] := by simpa [provideCalls] using hc
  have ht : provideEntries text = orUnreadable
      ((call.all text.toList).flatMap fun c => argumentEntries c.argument) := by
    rw [provideEntries_eq, arguments_of_startsCall hs, List.flatMap_map]
  constructor
  · rw [ht, allEntries_provideCalls, orUnreadable_flatMap_iff hn, provideCalls, List.length_map,
      List.forall_mem_map]
    refine or_congr Iff.rfl (forall₂_congr fun c hm => ?_)
    rw [isPairless_call (proper_of_mem_all c hm), decide_eq_false_iff_not]
  · have hf : (provideCalls text).filter (fun call => !isPairless call) =
        ((call.all text.toList).filter fun c => argumentEntries c.argument ≠ []).map
          fun c => String.ofList c.text := by
      rw [provideCalls, List.filter_map]
      congr 1
      refine List.filter_congr fun c hm => ?_
      simp [isPairless_call (proper_of_mem_all c hm)]
    have he : allEntries ((provideCalls text).filter fun call => !isPairless call) =
        (call.all text.toList).flatMap fun c => argumentEntries c.argument := by
      rw [hf, allEntries, List.flatMap_map,
        ← flatMap_filter_orUnreadable fun c : Call => argumentEntries c.argument]
      refine List.flatMap_congr fun c hm => ?_
      exact provideEntries_call (proper_of_mem_all c (List.mem_of_mem_filter hm))
    rw [ht, he]

/-- Among other calls, an object literal without a pair is left out; on its own it is reported. -/
theorem pairless_call_left_out :
    let text := "provide(\x7b\x7d) provide('a', 1)"
    StartsCall text.toList ∧ provideCalls text = ["provide(\x7b\x7d)", "provide('a', 1)"] ∧
      provideEntries text = [⟨"a", "1"⟩] ∧
      allEntries (provideCalls text) = [.unreadable, ⟨"a", "1"⟩] ∧
      provideEntries text ≠ allEntries (provideCalls text) := by
  intro text
  have hs : StartsCall text.toList := isSome_callStart?_iff.1 (by decide +kernel)
  exact ⟨hs, by decide +kernel, by decide +kernel, by decide +kernel, by decide +kernel⟩

theorem entries_together_iff_mixed :
    let text := " provide (\x7b a \x7d)provide(b)provide('c', 1)"
    let calls := ["provide (\x7b a \x7d)", "provide(b)", "provide('c', 1)"]
    StartsCall text.toList ∧ provideCalls text = calls ∧
      (∀ call ∈ calls, isPairless call = false) ∧ provideEntries text = allEntries calls := by
  intro text calls
  have hs : StartsCall text.toList := isSome_callStart?_iff.1 (by decide +kernel)
  have hc : provideCalls text = calls := by decide +kernel
  have hp : ∀ call ∈ calls, isPairless call = false := by decide +kernel
  have hn : provideCalls text ≠ [] := by simp [hc, calls]
  have h := (entries_together_iff text hs hn).1
  rw [hc] at h
  exact ⟨hs, hc, hp, h.2 (.inr hp)⟩

end SeveralCalls

section BareArguments

theorem ofList_text_called (a : String) :
    String.ofList (Call.text ⟨[], a.toList⟩) = "provide(" ++ a ++ ")" := by
  have ho : "provide(".toList = "provide".toList ++ ['('] := by decide
  have he : ")".toList = [')'] := by decide
  rw [← String.toList_inj, String.toList_ofList, Call.text_eq]
  simp only [String.toList_append, ho, he, List.append_assoc, List.cons_append, List.nil_append]

/-- An argument gives the same entries on its own and in a call. -/
theorem bare_argument_eq_called (a : String) (hp : ')' ∉ a.toList)
    (hs : ¬ StartsCall a.toList) :
    provideEntries a = provideEntries ("provide(" ++ a ++ ")") := by
  have hc : Call.Proper ⟨[], a.toList⟩ := ⟨List.forall_mem_nil _, hp⟩
  have hcall := provideEntries_call hc
  rw [ofList_text_called, Call.argument] at hcall
  rw [hcall, provideEntries_eq, arguments_eq, if_neg (mt isSome_callStart?_iff.1 hs)]
  by_cases ht : trim a.toList = []
  · -- a blank text has no argument, and in a call an empty one
    rw [if_pos ht, ht]
    rfl
  · rw [if_neg ht, List.flatMap_singleton]

theorem bare_argument_eq_called_wideSpaces :
    let a := "\u2003\x7b provide(b: 'x y', \u3000"
    ')' ∉ a.toList ∧ ¬ StartsCall a.toList ∧
      provideEntries a = provideEntries ("provide(" ++ a ++ ")") ∧
      provideEntries a = [⟨"b", "x y"⟩] := by
  intro a
  have hp : ')' ∉ a.toList := by decide
  have hs : ¬ StartsCall a.toList := by
    rw [← isSome_callStart?_iff]
    decide +kernel
  exact ⟨hp, hs, bare_argument_eq_called a hp hs, by decide +kernel⟩

end BareArguments

end Ancestry.Source
