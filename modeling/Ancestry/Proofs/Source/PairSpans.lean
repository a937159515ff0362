import Ancestry.Proofs.Source.ObjectLiterals
import Ancestry.Proofs.Text.Spans

/-!
Where the entries of an object literal come from, in a text of any form. Each entry is written in a
span of its own: nothing of it stands elsewhere, and nothing else stands in the span but quotes,
white space and a colon. Outside the spans no entry begins.
-/

namespace Ancestry.Source
open Ancestry.Text

/-- One quote or none. -/
def MaybeQuote (s : List Char) : Prop :=
  s = [] ∨ ∃ c, s = [c] ∧ isQuote c

/-- How a key is written: a word, with or without a quote at each end. -/
def WrittenKey (key : String) (s : List Char) : Prop :=
  ∃ opening closing, s = opening ++ (key.toList ++ closing) ∧ MaybeQuote opening ∧
    MaybeQuote closing ∧ key ≠ "" ∧ ∀ c ∈ key.toList, isWord c

/-- No value goes on with this text: no character of one comes next, and no quote. -/
def StopsValue (s : List Char) : Prop :=
  ∀ c ∈ s.head?, isValueChar c = false ∧ isQuote c = false

/-- How a value is written, and what follows it: words and white space, with or without a quote at
each end, between white space that does not belong to it. The value may be empty if there is such
white space, and without a closing quote it goes on as far as it can. -/
def WrittenValue (value : String) (s behind : List Char) : Prop :=
  ∃ before opening gap closing, s = before ++ (opening ++ (value.toList ++ (gap ++ closing))) ∧
    (∀ c ∈ before, isSpace c) ∧ MaybeQuote opening ∧ (∀ c ∈ value.toList, isValueChar c) ∧
    (∀ c ∈ gap, isSpace c) ∧ MaybeQuote closing ∧ before ++ (value.toList ++ gap) ≠ [] ∧
    (closing = [] → StopsValue behind)

/-- How an entry is written, and what follows it: a key, a colon and a value, or a key alone, which
is the value too if a comma or a closing brace comes next. -/
inductive WrittenEntry (e : Entry) : List Char → List Char → Prop
  | pair {key gap value behind : List Char} (hk : WrittenKey e.key key)
      (hg : ∀ x ∈ gap, isSpace x) (hv : WrittenValue e.value value behind) :
      WrittenEntry e (key ++ (gap ++ ':' :: value)) behind
  | shorthand {key gap more : List Char} {c : Char} (hk : WrittenKey e.key key)
      (he : e.value = e.key) (hg : ∀ x ∈ gap, isSpace x) (hc : c = ',' ∨ c = '\x7d') :
      WrittenEntry e key (gap ++ c :: more)

variable {s t rest written opening core gap closing : List Char} {c : Char}

section Quotes

theorem optionalQuote_append (s : List Char) : (optionalQuote s).1 ++ (optionalQuote s).2 = s := by
  unfold optionalQuote
  split
  · rfl
  · split <;> rfl

theorem maybeQuote_optionalQuote (s : List Char) : MaybeQuote (optionalQuote s).1 := by
  unfold optionalQuote
  split
  · exact .inl rfl
  · split
    · rename_i hq
      exact .inr ⟨_, rfl, hq⟩
    · exact .inl rfl

theorem head?_of_optionalQuote (h : (optionalQuote s).1 = []) :
    (optionalQuote s).2 = s ∧ ∀ c ∈ s.head?, isQuote c = false := by
  cases s with
  | nil => exact ⟨rfl, by simp⟩
  | cons c s =>
    by_cases hc : isQuote c
    · simp [optionalQuote_quote hc] at h
    · have hc := Bool.eq_false_iff.2 hc
      exact ⟨by rw [optionalQuote_cons hc], by simpa using hc⟩

theorem MaybeQuote.optionalQuote_append (h : MaybeQuote opening)
    (ht : ∀ c ∈ t.head?, isQuote c = false) : optionalQuote (opening ++ t) = (opening, t) := by
  rcases h with rfl | ⟨q, rfl, hq⟩
  · cases t with
    | nil => rfl
    | cons c t => exact optionalQuote_cons (ht c rfl) t
  · exact optionalQuote_quote hq t

theorem isQuote_eq_false_of_isValueChar (h : isValueChar c) : isQuote c = false := by
  rw [isValueChar, Bool.or_eq_true] at h
  exact h.elim isQuote_eq_false_of_isWord isQuote_eq_false_of_isSpace

theorem dropQuotes_around (ho : MaybeQuote opening) (hn : ∀ c ∈ core, isQuote c = false)
    (hc : MaybeQuote closing) : dropQuotes (opening ++ (core ++ closing)) = core := by
  rcases ho with rfl | ⟨a, rfl, ha⟩ <;> rcases hc with rfl | ⟨b, rfl, hb⟩
  · simpa using dropQuotes_eq_self hn
  · cases core with
    | nil => simp [dropQuotes, dropLeadingQuote, dropTrailingQuote, hb]
    | cons c core =>
      have hl : dropLeadingQuote (c :: (core ++ [b])) = (c :: core) ++ [b] := by
        simp [dropLeadingQuote, hn c (by simp)]
      rw [List.nil_append, List.cons_append, dropQuotes, hl, dropTrailingQuote_concat hb]
  · simpa [dropQuotes, dropLeadingQuote, ha] using dropTrailingQuote_eq_self hn
  · exact dropQuotes_quoted ha hb core

theorem head?_around (ho : MaybeQuote opening) (hc : MaybeQuote closing)
    (hf : opening = [] → ∀ c ∈ core.head?, isSpace c = false) :
    ∀ c ∈ (opening ++ (core ++ closing)).head?, isSpace c = false := by
  rcases ho with rfl | ⟨a, rfl, ha⟩
  · cases core with
    | nil =>
      rcases hc with rfl | ⟨b, rfl, hb⟩
      · simp
      · simpa using isSpace_eq_false_of_isQuote hb
    | cons c core => simpa using hf rfl
  · simpa using isSpace_eq_false_of_isQuote ha

theorem MaybeQuote.reverse (h : MaybeQuote s) : MaybeQuote s.reverse := by
  rcases h with rfl | ⟨c, rfl, hc⟩
  · exact .inl rfl
  · exact .inr ⟨c, rfl, hc⟩

/-- What is written between white space and quotes is what is meant. -/
theorem unquoted_around {before behind : List Char} (ho : MaybeQuote opening)
    (hc : MaybeQuote closing) (hn : ∀ c ∈ core, isQuote c = false)
    (hf : opening = [] → ∀ c ∈ core.head?, isSpace c = false)
    (hl : closing = [] → ∀ c ∈ core.getLast?, isSpace c = false)
    (hb : ∀ c ∈ before, isSpace c) (ha : ∀ c ∈ behind, isSpace c) :
    unquoted (before ++ (opening ++ (core ++ closing) ++ behind)) = String.ofList core := by
  -- the last character is the first one of the text read backwards
  have hr : ∀ c ∈ (closing.reverse ++ (core.reverse ++ opening.reverse)).head?,
      isSpace c = false :=
    head?_around hc.reverse ho.reverse (by simpa using hl)
  rw [← List.reverse_append, ← List.reverse_append, List.append_assoc, List.head?_reverse] at hr
  rw [unquoted, trim_padded (head?_around ho hc hf) hr hb ha, dropQuotes_around ho hn hc]

theorem unquoted_blank (hg : ∀ c ∈ gap, isSpace c) (hc : MaybeQuote closing) :
    unquoted (gap ++ closing) = "" := by
  have hu : unquoted (gap ++ ([] ++ ([] ++ closing) ++ [])) = String.ofList [] :=
    unquoted_around (.inl rfl) hc (by simp) (by simp) (by simp) hg (by simp)
  rwa [List.append_nil, List.nil_append, List.nil_append, String.ofList_nil] at hu

end Quotes

section Reading
variable {p : Char → Bool}

/-- Reads a run of characters with the quotes around it. -/
def quotedRun? (p : Char → Bool) (s : List Char) : Option (List Char × List Char) :=
  let (opening, s) := optionalQuote s
  match s.takeWhile p with
  | [] => none
  | run =>
    let (closing, rest) := optionalQuote (s.dropWhile p)
    some (opening ++ run ++ closing, rest)

theorem key?_eq (s : List Char) : key? s = quotedRun? isWord s := rfl

theorem filledValue?_eq (s : List Char) : filledValue? s = quotedRun? isValueChar s := rfl

theorem quotedRun?_eq_some (h : quotedRun? p s = some (written, rest)) :
    s = written ++ rest ∧ ∃ opening run closing, written = opening ++ (run ++ closing) ∧
      MaybeQuote opening ∧ MaybeQuote closing ∧ run ≠ [] ∧ (∀ c ∈ run, p c) ∧
      (closing = [] → ∀ c ∈ rest.head?, p c = false ∧ isQuote c = false) := by
  unfold quotedRun? at h
  simp only at h
  split at h
  · cases h
  · rename_i hn
    simp only [Option.some.injEq, Prod.mk.injEq] at h
    obtain ⟨rfl, rfl⟩ := h
    refine ⟨?_, _, _, _, List.append_assoc _ _ _, maybeQuote_optionalQuote s,
      maybeQuote_optionalQuote _, hn, fun c hc => List.mem_takeWhile_imp hc, fun he c hc => ?_⟩
    · rw [List.append_assoc, List.append_assoc, optionalQuote_append,
        List.takeWhile_append_dropWhile, optionalQuote_append]
    · obtain ⟨hd, hq⟩ := head?_of_optionalQuote he
      rw [hd] at hc
      exact ⟨head?_dropWhile p _ c hc, hq c hc⟩

theorem takeWhile_of_quotedRun? (h : quotedRun? p s = none) :
    (optionalQuote s).2.takeWhile p = [] := by
  unfold quotedRun? at h
  simp only at h
  split at h
  · assumption
  · cases h

theorem key?_eq_some (h : key? s = some (written, rest)) :
    s = written ++ rest ∧ WrittenKey (unquoted written) written := by
  obtain ⟨hs, opening, word, closing, rfl, ho, hc, hn, hw, -⟩ := quotedRun?_eq_some (key?_eq s ▸ h)
  have hsp : ∀ c ∈ word, isSpace c = false := fun c hc => isSpace_eq_false_of_isWord (hw c hc)
  have hu : unquoted ([] ++ (opening ++ (word ++ closing) ++ [])) = String.ofList word :=
    unquoted_around ho hc (fun c hc => isQuote_eq_false_of_isWord (hw c hc))
      (fun _ c hc => hsp c (List.mem_of_mem_head? hc))
      (fun _ c hc => hsp c (List.mem_of_mem_getLast? hc)) (by simp) (by simp)
  rw [List.nil_append, List.append_nil] at hu
  rw [hu]
  exact ⟨hs, opening, closing, by simp, ho, hc, by simpa using hn, by simpa using hw⟩

theorem exists_trimmed (run : List Char) : ∃ core gap, run = core ++ gap ∧
    (∀ c ∈ gap, isSpace c) ∧ ∀ c ∈ core.getLast?, isSpace c = false := by
  refine ⟨run.rdropWhile isSpace, run.rtakeWhile isSpace, ?_, fun c hc => ?_, fun c hc => ?_⟩
  · rw [List.rdropWhile_append_rtakeWhile]
  · exact List.mem_rtakeWhile_imp hc
  · obtain ⟨hn, rfl⟩ := List.mem_getLast?_eq_getLast hc
    simpa using List.rdropWhile_last_not isSpace run hn

theorem filledValue?_eq_some (hs : ∀ c ∈ s.head?, isSpace c = false)
    (h : filledValue? s = some (written, rest)) :
    s = written ++ rest ∧ WrittenValue (unquoted written) written rest := by
  obtain ⟨rfl, opening, run, closing, rfl, ho, hc, hn, hv, hb⟩ :=
    quotedRun?_eq_some (filledValue?_eq s ▸ h)
  -- white space at the end of the run does not belong to the value, unless a quote follows it
  obtain ⟨core, gap, rfl, hg, hl, he⟩ : ∃ core gap, run = core ++ gap ∧ (∀ c ∈ gap, isSpace c) ∧
      (closing = [] → ∀ c ∈ core.getLast?, isSpace c = false) ∧ (closing = [] ∨ gap = []) := by
    rcases hc with rfl | ⟨b, rfl, -⟩
    · obtain ⟨core, gap, hr, hg, hl⟩ := exists_trimmed run
      exact ⟨core, gap, hr, hg, fun _ => hl, .inl rfl⟩
    · exact ⟨run, [], by simp, by simp, by simp, .inr rfl⟩
  have hv' : ∀ c ∈ core, isValueChar c := fun c hc => hv c (List.mem_append_left gap hc)
  have hf : opening = [] → ∀ c ∈ core.head?, isSpace c = false := by
    rintro rfl c hc
    obtain ⟨t, rfl⟩ := List.head?_eq_some_iff.1 hc
    exact hs c rfl
  have hw : [] ++ (opening ++ (core ++ closing) ++ gap) = opening ++ (core ++ gap ++ closing) := by
    rcases he with rfl | rfl <;> simp
  rw [← hw, unquoted_around ho hc (fun c hc => isQuote_eq_false_of_isValueChar (hv' c hc)) hf hl
    (by simp) hg, hw]
  exact ⟨rfl, [], opening, gap, closing, by simp, by simp, ho, by simpa using hv', hg, hc,
    by simpa using hn, hb⟩

theorem WrittenValue.append_space {value : String} (h : WrittenValue value s rest)
    (hg : ∀ c ∈ gap, isSpace c) : WrittenValue value (gap ++ s) rest := by
  obtain ⟨before, opening, behind, closing, rfl, hb, ho, hv, hs, hc, hn, hr⟩ := h
  refine ⟨gap ++ before, opening, behind, closing, by simp, ?_, ho, hv, hs, hc, ?_, hr⟩
  · simpa [or_imp, forall_and] using ⟨hg, hb⟩
  · rw [List.append_assoc]
    exact fun h => hn (List.append_eq_nil_iff.1 h).2

theorem value?_eq_some (h : value? s = some (written, rest)) :
    ∃ taken, s = taken ++ rest ∧ WrittenValue (unquoted written) taken rest := by
  have hgap : ∀ c ∈ s.takeWhile isSpace, isSpace c := fun c hc => List.mem_takeWhile_imp hc
  have hs := List.takeWhile_append_dropWhile (p := isSpace) (l := s)
  unfold value? at h
  split at h
  · rename_i found hv
    obtain rfl := Option.some.inj h
    obtain ⟨hd, hw⟩ := filledValue?_eq_some (head?_dropWhile isSpace s) hv
    refine ⟨s.takeWhile isSpace ++ written, ?_, hw.append_space hgap⟩
    rw [List.append_assoc, ← hd, hs]
  · rename_i hv
    split at h
    · cases h
    · rename_i hn
      simp only [Option.some.injEq, Prod.mk.injEq] at h
      obtain ⟨rfl, rfl⟩ := h
      have hc := maybeQuote_optionalQuote (s.dropWhile isSpace)
      refine ⟨s.takeWhile isSpace ++ (optionalQuote (s.dropWhile isSpace)).1, ?_, ?_⟩
      · rw [List.append_assoc, optionalQuote_append, hs]
      · -- no value begins here, and what is read as one is white space and perhaps a quote
        rw [unquoted_blank (fun c hc => hgap c (List.mem_of_mem_drop hc)) hc]
        refine ⟨s.takeWhile isSpace, [], [], _, by simp, hgap, .inl rfl, by simp, by simp, hc,
          by simpa using hn, fun he c hc => ?_⟩
        obtain ⟨hd, hq⟩ := head?_of_optionalQuote he
        have hr := takeWhile_of_quotedRun? (filledValue?_eq _ ▸ hv)
        rw [hd] at hc hr
        exact ⟨head?_of_takeWhile hr c hc, hq c hc⟩

theorem colonValue?_eq_some (h : colonValue? s = some (written, rest)) :
    ∃ gap taken, s = gap ++ ':' :: (taken ++ rest) ∧ (∀ c ∈ gap, isSpace c) ∧
      WrittenValue (unquoted written) taken rest := by
  unfold colonValue? at h
  split at h
  · rename_i t ht
    obtain ⟨taken, rfl, hv⟩ := value?_eq_some h
    refine ⟨s.takeWhile isSpace, taken, ?_, fun c hc => List.mem_takeWhile_imp hc, hv⟩
    rw [← ht, List.takeWhile_append_dropWhile]
  · cases h

theorem exists_of_endsItem (h : endsItem s) :
    ∃ gap c more, s = gap ++ c :: more ∧ (∀ x ∈ gap, isSpace x) ∧ (c = ',' ∨ c = '\x7d') := by
  unfold endsItem at h
  split at h
  · rename_i c more hs
    refine ⟨s.takeWhile isSpace, c, more, ?_, fun x hx => List.mem_takeWhile_imp hx, ?_⟩
    · rw [← hs, List.takeWhile_append_dropWhile]
    · simpa [or_comm] using h
  · cases h

/-- What is read as an entry is one that is written there. -/
theorem readPair?_eq_some {e : Entry} (h : readPair? s = some (e, rest)) :
    ∃ taken, s = taken ++ rest ∧ WrittenEntry e taken rest := by
  simp only [readPair?, bind, Option.bind_eq_some_iff, Prod.exists] at h
  obtain ⟨key, behind, hk, h⟩ := h
  obtain ⟨rfl, hw⟩ := key?_eq_some hk
  split at h
  · rename_i value rest' hv
    simp only [Option.some.injEq, Prod.mk.injEq] at h
    obtain ⟨rfl, rfl⟩ := h
    obtain ⟨gap, taken, rfl, hg, hv⟩ := colonValue?_eq_some hv
    exact ⟨key ++ (gap ++ ':' :: taken), by simp, .pair hw hg hv⟩
  · simp only [Option.ite_none_right_eq_some, Option.some.injEq, Prod.mk.injEq] at h
    obtain ⟨he, rfl, rfl⟩ := h
    obtain ⟨gap, c, more, rfl, hg, hc⟩ := exists_of_endsItem he
    exact ⟨key, rfl, .shorthand hw rfl hg hc⟩

end Reading

section Writing

theorem WrittenKey.key?_append {key : String} (h : WrittenKey key s) (hw : isWord c = false)
    (hq : isQuote c = false) : key? (s ++ c :: t) = some (s, c :: t) := by
  obtain ⟨opening, closing, rfl, ho, hc, hn, hk⟩ := h
  obtain ⟨a, word, ha⟩ := List.exists_cons_of_ne_nil (mt String.toList_eq_nil_iff.1 hn)
  rw [ha] at hk ⊢
  have hb : ∀ x ∈ (closing ++ c :: t).head?, isWord x = false := by
    rcases hc with rfl | ⟨b, rfl, hb⟩
    · simpa using hw
    · have hb : ¬ isWord b := fun hw => by simp [isQuote_eq_false_of_isWord hw] at hb
      simpa using hb
  have hopen := ho.optionalQuote_append (t := (a :: word) ++ (closing ++ c :: t))
    (by simpa using isQuote_eq_false_of_isWord (hk a (by simp)))
  have hclose := hc.optionalQuote_append (t := c :: t) (by simpa using hq)
  rw [List.append_assoc, List.append_assoc, key?, hopen]
  simp only [takeWhile_append_stop hb, dropWhile_append_stop hb, List.takeWhile_eq_self_iff.2 hk,
    List.dropWhile_eq_nil_iff.2 hk, List.nil_append, hclose, List.append_assoc]

theorem of_value?_eq_none (h : value? s = none) :
    (∀ c ∈ s.head?, isSpace c = false) ∧ (optionalQuote s).2.takeWhile isValueChar = [] := by
  unfold value? at h
  split at h
  · cases h
  · rename_i hv
    split at h
    · rename_i hg
      have hs := head?_of_takeWhile hg
      rw [dropWhile_eq_self hs] at hv
      exact ⟨hs, takeWhile_of_quotedRun? (filledValue?_eq s ▸ hv)⟩
    · cases h

theorem WrittenValue.value?_ne_none {value : String} (h : WrittenValue value s rest) :
    value? (s ++ rest) ≠ none := by
  obtain ⟨before, opening, gap, closing, rfl, hb, ho, hv, hg, hc, hn, -⟩ := h
  intro h
  obtain ⟨hs, hr⟩ := of_value?_eq_none h
  cases before with
  | cons c before => simp [hb c (by simp)] at hs
  | nil =>
    -- behind the quote there is something of the value, or white space
    obtain ⟨x, more, hx⟩ := List.exists_cons_of_ne_nil hn
    rw [List.nil_append] at hx
    have hxv : isValueChar x := by
      have hm : x ∈ value.toList ++ gap := by simp [hx]
      cases List.mem_append.1 hm with
      | inl hm => exact hv x hm
      | inr hm => simp [isValueChar, hg x hm]
    have ht : [] ++ (opening ++ (value.toList ++ (gap ++ closing))) ++ rest =
        opening ++ x :: (more ++ (closing ++ rest)) := by
      rw [← List.append_assoc value.toList, hx]
      simp
    rw [ht, ho.optionalQuote_append (by simpa using isQuote_eq_false_of_isValueChar hxv),
      List.takeWhile_cons_of_pos hxv] at hr
    cases hr

theorem exists_cons_of_gap (hg : ∀ x ∈ gap, isSpace x) (hw : isWord c = false)
    (hq : isQuote c = false) (t : List Char) :
    ∃ d u, gap ++ c :: t = d :: u ∧ isWord d = false ∧ isQuote d = false := by
  cases gap with
  | nil => exact ⟨c, t, rfl, hw, hq⟩
  | cons d gap =>
    have hd := hg d (by simp)
    have hn : ¬ isWord d := fun hw => by simp [isSpace_eq_false_of_isWord hw] at hd
    exact ⟨d, gap ++ c :: t, rfl, by simpa using hn, isQuote_eq_false_of_isSpace hd⟩

/-- Where an entry is written, one is read. -/
theorem WrittenEntry.readPair?_ne_none {e : Entry} (h : WrittenEntry e s rest) :
    readPair? (s ++ rest) ≠ none := by
  cases h with
  | @pair key gap value _ hk hg hv =>
    obtain ⟨d, u, hu, hw, hq⟩ := exists_cons_of_gap hg (c := ':') (by decide) (by decide)
      (value ++ rest)
    have hc : colonValue? (d :: u) = value? (value ++ rest) := by
      rw [← hu]
      simp only [colonValue?, dropWhile_stop hg (show isSpace ':' = false by decide)]
    have hs : key ++ (gap ++ ':' :: value) ++ rest = key ++ d :: u := by simp [← hu]
    obtain ⟨found, hf⟩ := Option.ne_none_iff_exists'.1 hv.value?_ne_none
    rw [hs, readPair?, hk.key?_append hw hq]
    simp [bind, hc, hf]
  | @shorthand key gap more c hk he hg hc =>
    have hend : endsItem (gap ++ c :: more) := by
      have hn : isSpace c = false := by rcases hc with rfl | rfl <;> decide
      rw [endsItem, dropWhile_stop hg hn]
      simpa [or_comm] using hc
    obtain ⟨d, u, hu, hw, hq⟩ := exists_cons_of_endsItem hend
    rw [hu] at hend ⊢
    rw [readPair?, hk.key?_append hw hq]
    simp [bind, colonValue?_eq_none hend, hend]

end Writing

/-- Whatever a text looks like, its entries stand in spans of it, one behind the other: each entry is
written in its span and as the text behind the span demands. Wherever else an entry is written, it
begins inside one of these spans. -/
theorem entries_written_in_spans (text : String) :
    ∃ spans, Located WrittenEntry text.toList (objectEntries text.toList) spans ∧
      ∀ place e taken rest, text.toList.drop place = taken ++ rest → WrittenEntry e taken rest →
        ∃ p ∈ spans, p.Covers place := by
  obtain ⟨spans, hl, hc⟩ := pair.exists_located readPair?_eq_some text.toList
  refine ⟨spans, hl, fun place e taken rest hp he => hc place ?_⟩
  rw [hp]
  exact he.readPair?_ne_none

example : objectEntries "\x7b ...rest, a: \x7b 'b': 'c d\x7d, e\x7d".toList =
    [⟨"rest", "rest"⟩, ⟨"a", ""⟩, ⟨"b", "c d"⟩, ⟨"e", "e"⟩] := by
  decide +kernel

end Ancestry.Source
