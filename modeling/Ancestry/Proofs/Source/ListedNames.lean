import Ancestry.Proofs.Source.Captures
import Ancestry.Proofs.Source.ImportStatements
import Ancestry.Proofs.Source.Pages

/-!
The names that import statements can list. Whatever a statement looks like, its list is a run of word
characters, commas and white space; so a listed name has no other characters, and it was trimmed. Every
such name stands in some list.
-/

namespace Ancestry.Source
open Ancestry.Text

variable {s list lead run before rest name : List Char} {names : List (List Char)} {braced : Bool}

/-- A name that an import statement can list: word characters and white space, with no white space at
the ends. -/
structure Listable (name : List Char) : Prop where
  ne_nil : name ≠ []
  first : ∀ c ∈ name.head?, isSpace c = false
  last : ∀ c ∈ name.getLast?, isSpace c = false
  chars : ∀ c ∈ name, isWord c ∨ isSpace c

theorem listable_iff (name : List Char) :
    name ≠ [] ∧ name.head?.all (!isSpace ·) ∧ name.getLast?.all (!isSpace ·) ∧
      name.all (fun c => isWord c || isSpace c) ↔ Listable name := by
  simp only [Option.all_eq_true, List.all_eq_true, Bool.not_eq_true', Bool.or_eq_true]
  exact ⟨fun ⟨hn, hf, hl, hc⟩ => ⟨hn, hf, hl, hc⟩, fun h => ⟨h.ne_nil, h.first, h.last, h.chars⟩⟩

instance (name : List Char) : Decidable (Listable name) :=
  decidable_of_iff _ (listable_iff name)

theorem Listable.not_mem (h : Listable name) {c : Char} (hw : isWord c = false)
    (hs : isSpace c = false) : c ∉ name := by
  intro hm
  cases h.chars c hm with
  | inl hc => simp [hw] at hc
  | inr hc => simp [hs] at hc

theorem listable_of_mem_listedNames (hl : ∀ c ∈ list, isListed c) (h : name ∈ listedNames list) :
    Listable name := by
  obtain ⟨hm, hn⟩ := List.mem_filter.1 h
  obtain ⟨part, hp, rfl⟩ := List.mem_map.1 hm
  refine ⟨by simpa using hn, head?_trim part, getLast?_trim part, fun c hc => ?_⟩
  obtain ⟨hs, hne⟩ := mem_of_mem_splitOn hp c ((trim_sublist part).mem hc)
  have hc := hl c hs
  simpa [isListed, hne] using hc

/-- What stands before the word `from` is a part of the run. -/
theorem prefix_of_beforeFrom? (h : beforeFrom? run = some before) : before <+: run := by
  simp only [beforeFrom?, bind, Option.bind_eq_some_iff] at h
  obtain ⟨word, hw, behind, hb, h⟩ := h
  split at h
  · rename_i c front
    obtain ⟨gap, hr, -⟩ := eq_append_of_spaces? hw
    rw [eq_append_of_after? hb] at hr
    obtain ⟨-, h⟩ := Option.ite_none_right_eq_some.1 h
    obtain rfl := Option.some.inj h
    refine ⟨c :: ("from".toList ++ gap.reverse), ?_⟩
    rw [← List.reverse_reverse run, hr]
    simp
  · cases h

/-- Whichever way a list is read, its characters are those of lists. -/
theorem exists_list_of_importList? (hd : ∀ c ∈ lead, isSpace c)
    (h : importList? lead braced s = some (names, rest)) :
    ∃ list, (∀ c ∈ list, isListed c) ∧ names = listedNames list := by
  have hrun : ∀ c ∈ s.takeWhile isListed, isListed c := fun c hc => List.mem_takeWhile_imp hc
  unfold importList? at h
  simp only at h
  split at h
  · -- a closing brace ends the list
    split at h
    · simp only [Option.map_eq_some_iff, Prod.mk.injEq] at h
      obtain ⟨r, -, hn, -⟩ := h
      exact ⟨_, hrun, hn.symm⟩
    · cases h
  · simp only [bind, Option.bind_eq_some_iff] at h
    obtain ⟨before, hb, r, -, h⟩ := h
    obtain ⟨-, h⟩ := Option.ite_none_right_eq_some.1 h
    obtain ⟨hn, -⟩ := Prod.mk.inj (Option.some.inj h)
    have hbefore : ∀ c ∈ before, isListed c := by
      intro c hc
      have hm := (prefix_of_beforeFrom? hb).subset hc
      split at hm
      · exact hrun c hm
      · cases List.mem_append.1 hm with
        | inl hm => simp [isListed, hd c hm]
        | inr hm => exact hrun c hm
    refine ⟨_, ?_, hn.symm⟩
    split
    · exact hbefore
    · exact fun c hc => hbefore c (List.mem_of_mem_drop hc)

theorem listable_of_readImport? (h : readImport? s = some (names, rest)) :
    ∀ name ∈ names, Listable name := by
  simp only [readImport?, bind, Option.bind_eq_some_iff] at h
  obtain ⟨gap, -, h⟩ := h
  have hd : ∀ c ∈ gap.takeWhile isSpace, isSpace c := fun c hc => List.mem_takeWhile_imp hc
  have hlist : ∀ {braced : Bool} {t : List Char},
      importList? (gap.takeWhile isSpace) braced t = some (names, rest) →
      ∀ name ∈ names, Listable name := by
    intro braced t ht name hn
    obtain ⟨list, hl, rfl⟩ := exists_list_of_importList? hd ht
    exact listable_of_mem_listedNames hl hn
  split at h
  · cases h
  · split at h
    · exact hlist h
    · exact hlist h

theorem listable_of_importsName {text name : String} (h : importsName text name) :
    Listable name.toList := by
  rw [importsName, List.contains_iff_mem, importedNames] at h
  obtain ⟨n, hn, rfl⟩ := List.mem_map.1 h
  obtain ⟨names, hm, hn⟩ := List.mem_flatten.1 hn
  rw [String.toList_ofList]
  exact importStatement.forall_mem_all listable_of_readImport? _ names hm n hn

theorem Listable.readImport?_list {name : String} (h : Listable name.toList) (rest : List Char) :
    readImport? ((Statement.list [name] ".").written.toList ++ rest) =
      some ([name.toList], '\n' :: rest) := by
  have hs : ∀ x ∈ [' '], isSpace x := List.forall_mem_singleton.2 (by decide)
  have hc : ',' ∉ name.toList := h.not_mem (by decide) (by decide)
  have hq : ∀ x ∈ ".".toList, isQuote x = false := List.forall_mem_singleton.2 (by decide)
  have hl : ∀ x ∈ [' '] ++ (name.toList ++ [' ']), isListed x := by
    intro x hx
    by_cases hm : x ∈ name.toList
    · cases h.chars x hm with
      | inl hw => exact isListed_of_isWord hw
      | inr hs => simp [isListed, hs]
    · obtain rfl : x = ' ' := by simpa [hm] using hx
      decide
  have ht : ' ' :: ([',', ' '].intercalate ([name].map String.toList) ++
      (" \x7d from '".toList ++ (".".toList ++ '\'' :: '\n' :: rest))) =
      ([' '] ++ (name.toList ++ [' '])) ++
        '\x7d' :: (" from '".toList ++ (".".toList ++ '\'' :: '\n' :: rest)) := by
    simp
  rw [Statement.toList_list, readImport?_blank (by decide), if_pos rfl, ht,
    importList?_closed hl (by simp) (by decide) hq,
    listedNames_padded hc h.ne_nil h.first h.last hs hs]

theorem Listable.exists_importsName {name : String} (h : Listable name.toList) :
    ∃ text, importsName text name := by
  let body := (Statement.list [name] ".").written.toList
  let page : Page := ⟨[([], ⟨[], body⟩)], []⟩
  have hn : '<' ∉ body := by
    have hm : '<' ∉ name.toList := h.not_mem (by decide) (by decide)
    simp [body, Statement.written, Statement.opening, Statement.path, hm]
  have hp : page.Plain := by
    have he : ¬ "<script".toList <:+: [] := by decide
    have hb : ¬ "</script>".toList <:+: body := fun hi => hn (hi.subset (by decide))
    exact ⟨List.forall_mem_singleton.2 ⟨he, by simp, hb⟩, he⟩
  have hr : importStatement.read (body ++ ['\n']) = _ := h.readImport?_list ['\n']
  have hb : page.bodies.flatMap (· ++ ['\n']) = body ++ ['\n'] := by
    simp [page, Page.bodies]
  refine ⟨page.text, ?_⟩
  rw [importsName, hp.importedNames_text, hb, importStatement.all_of_read hr]
  simp

/-- These are the names that some text imports. -/
theorem exists_importsName_iff (name : String) :
    (∃ text, importsName text name) ↔ Listable name.toList :=
  ⟨fun ⟨_, h⟩ => listable_of_importsName h, Listable.exists_importsName⟩

end Ancestry.Source
