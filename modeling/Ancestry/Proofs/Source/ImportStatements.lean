import Ancestry.Proofs.Source.ScriptBlocks
import Ancestry.Source.Import
import Mathlib.Data.List.TakeWhile

/-!
Import statements as they are written: one name, or a list of names in braces. A run of list characters
goes over the word `from` up to the path, and comes back to the last place where the word can stand;
so every statement gives the names that it lists, even if one of them is `from` or `import`.
-/

namespace Ancestry.Source
open Ancestry.Text

section Reading
variable {s name path : List Char} {c : Char}

theorem isListed_of_isWord (h : isWord c) : isListed c := by
  simp [isListed, h]

theorem quotedPath?_quoted (hn : path ≠ []) (hp : ∀ x ∈ path, isQuote x = false)
    (rest : List Char) : quotedPath? ('\'' :: (path ++ '\'' :: rest)) = some rest := by
  have hq : ∀ x ∈ path, (!isQuote x) = true := by
    intro x hx
    simp [hp x hx]
  obtain ⟨a, path, rfl⟩ := List.exists_cons_of_ne_nil hn
  rw [quotedPath?, if_pos (by decide), takeWhile_stop hq (by decide), dropWhile_stop hq (by decide)]

theorem spaces?_blank (h : ∀ x ∈ s.head?, isSpace x = false) : spaces? (' ' :: s) = some s := by
  rw [spaces?, if_pos (by decide), dropWhile_eq_self h]

theorem eq_append_of_spaces? {rest : List Char} (h : spaces? s = some rest) :
    ∃ gap, s = gap ++ rest ∧ ∀ x ∈ gap, isSpace x := by
  cases s with
  | nil => cases h
  | cons c s =>
    simp only [spaces?, Option.ite_none_right_eq_some, Option.some.injEq] at h
    obtain ⟨hc, rfl⟩ := h
    refine ⟨c :: s.takeWhile isSpace, ?_, List.forall_mem_cons.2 ⟨hc, ?_⟩⟩
    · rw [List.cons_append, List.takeWhile_append_dropWhile]
    · exact fun x hx => List.mem_takeWhile_imp hx

theorem fromPath?_quoted (hn : path ≠ []) (hp : ∀ x ∈ path, isQuote x = false)
    (rest : List Char) :
    fromPath? (" from '".toList ++ (path ++ '\'' :: rest)) = some rest := by
  have ht : " from '".toList ++ (path ++ '\'' :: rest) =
      ' ' :: ("from".toList ++ ' ' :: '\'' :: (path ++ '\'' :: rest)) := by simp
  rw [ht, fromPath?, spaces?_blank (by simp; decide)]
  simp only [bind, Option.bind_some, after?_append]
  rw [spaces?_blank (by simp; decide), Option.bind_some, quotedPath?_quoted hn hp]

/-- The run is read from its end, so an earlier `from` is none of its concern. -/
theorem beforeFrom?_append (before : List Char) :
    beforeFrom? (before ++ " from ".toList) = some before := by
  have hr : (before ++ " from ".toList).reverse =
      ' ' :: ("morf".toList ++ ' ' :: before.reverse) := by simp
  rw [beforeFrom?, hr, spaces?_blank (by simp; decide)]
  simp only [bind, Option.bind_some, after?_append]
  rw [if_pos (by decide), List.reverse_reverse]

/-- A text without commas, padded with white space, lists the one name that is left of it. -/
theorem listedNames_padded (hc : ',' ∉ name) (hn : name ≠ [])
    (hf : ∀ x ∈ name.head?, isSpace x = false) (hl : ∀ x ∈ name.getLast?, isSpace x = false)
    {before behind : List Char} (hb : ∀ x ∈ before, isSpace x) (ha : ∀ x ∈ behind, isSpace x) :
    listedNames (before ++ (name ++ behind)) = [name] := by
  have hs : ',' ∉ before ++ (name ++ behind) := by
    simp only [List.mem_append, not_or]
    exact ⟨fun h => absurd (hb _ h) (by decide), hc, fun h => absurd (ha _ h) (by decide)⟩
  rw [listedNames, List.splitOn_eq_singleton hs, List.map_singleton, trim_padded hf hl hb ha]
  simp [hn]

theorem listedNames_word (hn : name ≠ []) (hw : ∀ x ∈ name, isWord x) {before behind : List Char}
    (hb : ∀ x ∈ before, isSpace x) (ha : ∀ x ∈ behind, isSpace x) :
    listedNames (before ++ (name ++ behind)) = [name] := by
  have hs : ∀ x ∈ name, isSpace x = false := fun x hx => isSpace_eq_false_of_isWord (hw x hx)
  exact listedNames_padded (fun h => absurd (hw _ h) (by decide)) hn
    (fun x hx => hs x (List.mem_of_mem_head? hx)) (fun x hx => hs x (List.mem_of_getLast? hx)) hb ha

theorem listedNames_comma (s t : List Char) :
    listedNames (s ++ ',' :: t) = listedNames s ++ listedNames t := by
  rw [listedNames, List.splitOn_append_cons_self, List.map_append, List.filter_append]
  rfl

/-- Names between braces, with a comma and a blank between them and a blank at both ends. -/
theorem listedNames_row {names : List (List Char)} (hn : names ≠ [])
    (hw : ∀ n ∈ names, n ≠ [] ∧ ∀ x ∈ n, isWord x) :
    listedNames (' ' :: ([',', ' '].intercalate names ++ [' '])) = names := by
  have hb : ∀ x ∈ [' '], isSpace x := List.forall_mem_singleton.2 (by decide)
  have he : ∀ x ∈ [], isSpace x := by simp
  induction names with
  | nil => exact absurd rfl hn
  | cons n names ih =>
    obtain ⟨hne, hnw⟩ := hw n (by simp)
    cases names with
    | nil =>
      rw [List.intercalate_singleton]
      exact listedNames_word hne hnw hb hb
    | cons m names =>
      have ht := ih (by simp) fun k hk => hw k (List.mem_cons_of_mem n hk)
      have hr : ' ' :: ([',', ' '].intercalate (n :: m :: names) ++ [' ']) =
          ([' '] ++ (n ++ [])) ++ ',' :: ' ' :: ([',', ' '].intercalate (m :: names) ++ [' ']) := by
        simp [List.intercalate_cons_cons]
      rw [hr, listedNames_comma, ht, listedNames_word hne hnw hb he, List.singleton_append]

/-- A list of names is read up to the word `from` before the path, over whatever words it holds. -/
theorem importList?_run {list lead : List Char} (hl : ∀ x ∈ list, isListed x) (hn : list ≠ [])
    (hd : lead ≠ []) (hp : path ≠ []) (hq : ∀ x ∈ path, isQuote x = false) (braced : Bool)
    (rest : List Char) :
    importList? lead braced (list ++ (" from '".toList ++ (path ++ '\'' :: rest))) =
      some (listedNames list, rest) := by
  have ht : list ++ (" from '".toList ++ (path ++ '\'' :: rest)) =
      (list ++ " from ".toList) ++ '\'' :: (path ++ '\'' :: rest) := by simp
  have hr : ∀ x ∈ list ++ " from ".toList, isListed x := by
    have hf : ∀ x ∈ " from ".toList, isListed x := List.all_eq_true.1 (by decide)
    intro x hx
    cases List.mem_append.1 hx with
    | inl hx => exact hl x hx
    | inr hx => exact hf x hx
  have h₁ := List.length_pos_iff.2 hn
  have h₂ := List.length_pos_iff.2 hd
  rw [importList?, ht, takeWhile_stop hr (by decide), dropWhile_stop hr (by decide)]
  simp only [← List.append_assoc]
  split
  · rename_i hc
    simp at hc
  · cases braced with
    | true =>
      simp only [if_true, beforeFrom?_append, bind, Option.bind_some, quotedPath?_quoted hp hq]
      rw [if_pos (by omega)]
    | false =>
      simp only [Bool.false_eq_true, if_false, beforeFrom?_append, bind, Option.bind_some,
        quotedPath?_quoted hp hq]
      rw [if_pos (by rw [List.length_append]; omega), List.drop_left]

theorem importList?_word (hn : name ≠ []) (hw : ∀ x ∈ name, isWord x) (hp : path ≠ [])
    (hq : ∀ x ∈ path, isQuote x = false) (rest : List Char) :
    importList? [' '] false (name ++ (" from '".toList ++ (path ++ '\'' :: rest))) =
      some ([name], rest) := by
  have hs : ∀ x ∈ [], isSpace x := by simp
  have hl : ∀ x ∈ name, isListed x := fun x hx => isListed_of_isWord (hw x hx)
  have hnames : listedNames name = [name] := by
    simpa using listedNames_word hn hw hs hs
  rw [importList?_run hl hn (by simp) hp hq, hnames]

/-- A list between braces ends at the closing one. -/
theorem importList?_closed {list : List Char} (hl : ∀ x ∈ list, isListed x) (hn : list ≠ [])
    (hp : path ≠ []) (hq : ∀ x ∈ path, isQuote x = false) (lead : List Char) (braced : Bool)
    (rest : List Char) :
    importList? lead braced (list ++ '\x7d' :: (" from '".toList ++ (path ++ '\'' :: rest))) =
      some (listedNames list, rest) := by
  rw [importList?, takeWhile_stop hl (by decide), dropWhile_stop hl (by decide)]
  simp only
  rw [if_pos (by simp [hn]), fromPath?_quoted hp hq, Option.map_some]

theorem importList?_row {names : List (List Char)} (hn : names ≠ [])
    (hw : ∀ n ∈ names, n ≠ [] ∧ ∀ x ∈ n, isWord x) (hp : path ≠ [])
    (hq : ∀ x ∈ path, isQuote x = false) (rest : List Char) :
    importList? [' '] true (' ' :: ([',', ' '].intercalate names ++
      (" \x7d from '".toList ++ (path ++ '\'' :: rest)))) = some (names, rest) := by
  have ht : ' ' :: ([',', ' '].intercalate names ++
      (" \x7d from '".toList ++ (path ++ '\'' :: rest))) =
      (' ' :: ([',', ' '].intercalate names ++ [' '])) ++
        '\x7d' :: (" from '".toList ++ (path ++ '\'' :: rest)) := by simp
  have hl : ∀ x ∈ ' ' :: ([',', ' '].intercalate names ++ [' ']), isListed x := by
    have hi : ∀ x ∈ [',', ' '].intercalate names, isListed x :=
      forall_mem_intercalate (List.all_eq_true.1 (by decide)) fun n hm x hx =>
        isListed_of_isWord ((hw n hm).2 x hx)
    have hb : isListed ' ' := by decide
    simpa [or_imp, forall_and, hb] using hi
  rw [ht, importList?_closed hl (by simp) hp hq, listedNames_row hn hw]

/-- Behind the word and one blank the list begins, with or without a brace. -/
theorem readImport?_blank (h : isSpace c = false) (list : List Char) :
    readImport? ("import ".toList ++ c :: list) =
      if c = '\x7b' then importList? [' '] true list else importList? [' '] false (c :: list) := by
  have ht : "import ".toList ++ c :: list = "import".toList ++ ' ' :: c :: list := by simp
  have hl : (' ' :: c :: list).takeWhile isSpace = [' '] := by
    rw [List.takeWhile_cons_of_pos (by decide), List.takeWhile_cons_of_neg (by simp [h])]
  have hd : (' ' :: c :: list).dropWhile isSpace = c :: list := by
    rw [List.dropWhile_cons_of_pos (by decide), List.dropWhile_cons_of_neg (by simp [h])]
  rw [readImport?, ht, after?_append]
  simp only [bind, Option.bind_some, hl, hd]
  rw [if_neg (by simp)]
  by_cases hc : c = '\x7b'
  · simp [hc]
  · rw [if_neg hc]
    split
    · rename_i hx
      exact absurd (List.cons.inj hx).1 hc
    · rfl

end Reading

/-- An import statement: one name or a list of names, and the path that they come from. -/
inductive Statement where
  | word (name path : String)
  | list (names : List String) (path : String)

namespace Statement

def names : Statement → List String
  | word name _ => [name]
  | list names _ => names

def path : Statement → String
  | word _ path => path
  | list _ path => path

/-- The statement up to its path. -/
def opening : Statement → String
  | word name _ => "import " ++ name ++ " from "
  | list names _ => "import \x7b " ++ ", ".intercalate names ++ " \x7d from "

def written (i : Statement) : String :=
  i.opening ++ "'" ++ i.path ++ "'\n"

/-- The names are words, of which there is one at least, and the path can stand between quotes in a
script. -/
structure Plain (i : Statement) : Prop where
  names_ne : i.names ≠ []
  names : ∀ n ∈ i.names, n ≠ "" ∧ ∀ c ∈ n.toList, isWord c
  path_ne : i.path ≠ ""
  path : ∀ c ∈ i.path.toList, isQuote c = false
  tag : ¬ "</script>".toList <:+: i.path.toList

/-- What is asked of a statement, as tests that can be run. -/
theorem plain_iff (i : Statement) :
    i.Plain ↔ i.names ≠ [] ∧ (i.names.all fun n => n ≠ "" && n.toList.all isWord) ∧
      i.path ≠ "" ∧ (i.path.toList.all fun c => !isQuote c) ∧
      ¬ "</script>".toList <:+: i.path.toList := by
  simp only [List.all_eq_true, Bool.and_eq_true, decide_eq_true_eq, Bool.not_eq_true']
  constructor
  · rintro ⟨h₁, h₂, h₃, h₄, h₅⟩
    exact ⟨h₁, h₂, h₃, h₄, h₅⟩
  · rintro ⟨h₁, h₂, h₃, h₄, h₅⟩
    exact ⟨h₁, h₂, h₃, h₄, h₅⟩

variable {i : Statement}

theorem toList_written (i : Statement) :
    i.written.toList = i.opening.toList ++ '\'' :: (i.path.toList ++ ['\'', '\n']) := by
  simp [written]

theorem toList_word (name path : String) (rest : List Char) :
    (word name path).written.toList ++ rest = "import ".toList ++
      (name.toList ++ (" from '".toList ++ (path.toList ++ '\'' :: '\n' :: rest))) := by
  simp [toList_written, opening, Statement.path]

theorem toList_list (names : List String) (path : String) (rest : List Char) :
    (list names path).written.toList ++ rest = "import ".toList ++
      '\x7b' :: ' ' :: ([',', ' '].intercalate (names.map String.toList) ++
        (" \x7d from '".toList ++ (path.toList ++ '\'' :: '\n' :: rest))) := by
  simp [toList_written, opening, Statement.path, String.toList_intercalate]

theorem Plain.names_toList (h : i.Plain) :
    ∀ n ∈ i.names.map String.toList, n ≠ [] ∧ ∀ x ∈ n, isWord x := by
  intro n hn
  obtain ⟨m, hm, rfl⟩ := List.mem_map.1 hn
  simpa using h.names m hm

theorem Plain.readImport? (h : i.Plain) (rest : List Char) :
    readImport? (i.written.toList ++ rest) = some (i.names.map String.toList, '\n' :: rest) := by
  have hn := h.names_toList
  have hp : i.path.toList ≠ [] := by simpa using h.path_ne
  cases i with
  | word name path =>
    obtain ⟨hne, hw⟩ := hn name.toList (by simp [Statement.names])
    have hr := importList?_word hne hw hp h.path ('\n' :: rest)
    have ht := toList_word name path rest
    obtain ⟨a, letters, he⟩ := List.exists_cons_of_ne_nil hne
    have ha : isWord a := hw a (by simp [he])
    rw [he, List.cons_append] at ht hr
    rw [ht, readImport?_blank (isSpace_eq_false_of_isWord ha), if_neg]
    · rw [← he] at hr
      exact hr
    · rintro rfl
      exact absurd ha (by decide)
  | list names path =>
    have hr := importList?_row (by simpa [Statement.names] using h.names_ne) hn hp h.path
      ('\n' :: rest)
    rw [toList_list, readImport?_blank (by decide), if_pos rfl]
    exact hr

theorem all_lineFeed (rest : List Char) :
    importStatement.all ('\n' :: rest) = importStatement.all rest := by
  apply importStatement.all_cons_of_none
  have ha : after? "import".toList ('\n' :: rest) = none := by
    simp [after?]
  simp only [importStatement, Source.readImport?, ha, bind, Option.bind_none]

/-- The line feed at its end is passed over, and the search goes on with the next statement. -/
theorem Plain.all (h : i.Plain) (rest : List Char) :
    importStatement.all (i.written.toList ++ rest) =
      i.names.map String.toList :: importStatement.all rest := by
  have hr : importStatement.read (i.written.toList ++ rest) = _ := h.readImport? rest
  rw [importStatement.all_of_read hr, all_lineFeed]

/-- No closing tag stands in a statement: its path has none, and there is none around its path. -/
theorem Plain.infix_iff (h : i.Plain) (rest : List Char) :
    "</script>".toList <:+: i.written.toList ++ rest ↔ "</script>".toList <:+: rest := by
  have ho : '<' ∉ i.opening.toList := by
    have hw : ∀ n ∈ i.names, '<' ∉ n.toList := by
      intro n hn hc
      exact absurd ((h.names n hn).2 _ hc) (by decide)
    cases i with
    | word name path => simp [opening, hw name (by simp [Statement.names])]
    | list names path =>
      have hi : ∀ c ∈ [',', ' '].intercalate (names.map String.toList), c ≠ '<' := by
        refine forall_mem_intercalate (by simp) fun part hp c hc he => ?_
        obtain ⟨n, hn, rfl⟩ := List.mem_map.1 hp
        exact hw n hn (he ▸ hc)
      have hc : ", ".toList = [',', ' '] := by decide
      simp [opening, String.toList_intercalate]
      intro hm
      exact hi _ hm rfl
  have hn : ¬ "</script>".toList <:+: i.opening.toList := by
    intro hm
    exact ho (hm.subset (by decide))
  have ht : i.written.toList ++ rest =
      i.opening.toList ++ '\'' :: (i.path.toList ++ '\'' :: ([] ++ '\n' :: rest)) := by
    simp [toList_written]
  have he : ¬ "</script>".toList <:+: [] := by decide
  rw [ht, infix_append_cons_iff (by decide), infix_append_cons_iff (by decide),
    infix_append_cons_iff (by decide)]
  simp only [hn, h.tag, he, false_or]

end Statement

variable {statements : List Statement}

theorem not_infix_statements (hs : ∀ i ∈ statements, i.Plain) :
    ¬ "</script>".toList <:+: statements.flatMap fun i => i.written.toList := by
  induction statements with
  | nil => decide
  | cons i statements ih =>
    rw [List.flatMap_cons, (hs i (by simp)).infix_iff]
    exact ih fun j hj => hs j (List.mem_cons_of_mem i hj)

/-- The names that are imported are those that the statements of the script list, in written order. -/
theorem importedNames_statements (hs : ∀ i ∈ statements, i.Plain) {before behind : String}
    (hb : ¬ "<script".toList <:+: before.toList) (ha : ¬ "<script".toList <:+: behind.toList) :
    importedNames (before ++ "<script>" ++ String.join (statements.map Statement.written) ++
      "</script>" ++ behind) = statements.flatMap Statement.names := by
  have hj : (String.join (statements.map Statement.written)).toList =
      statements.flatMap fun i => i.written.toList := by
    rw [String.toList_join, List.flatMap_map]
  have hn : ¬ "</script>".toList <:+: (String.join (statements.map Statement.written)).toList := by
    rw [hj]
    exact not_infix_statements hs
  have hall := importStatement.all_flatMap (fun i hi => (hs i hi).all) ['\n']
  rw [Statement.all_lineFeed, importStatement.all_nil, List.append_nil] at hall
  rw [importedNames, script_one hb hn ha, hj, hall, ← List.flatMap_def, List.map_flatMap]
  simp [Function.comp_def]

/-- A text with one script of import statements, and whatever around it, imports a name just if one
of the statements lists it. -/
theorem importsName_iff_mem_names (statements : List Statement) (before behind : String)
    (hs : ∀ i ∈ statements, i.Plain) (hb : ¬ "<script".toList <:+: before.toList)
    (ha : ¬ "<script".toList <:+: behind.toList) (name : String) :
    importsName (before ++ "<script>" ++ String.join (statements.map Statement.written) ++
      "</script>" ++ behind) name ↔ ∃ i ∈ statements, name ∈ i.names := by
  rw [importsName, importedNames_statements hs hb ha, List.contains_iff_mem, List.mem_flatMap]

theorem importsName_iff_mem_names_keywords :
    let statements : List Statement :=
      [.word "from" "./a</script", .list ["import", "naïve"] "b\nimport X from "]
    let text := "<scrip<script>import from from './a</script'\n" ++
      "import \x7b import, naïve \x7d from 'b\nimport X from '\n</script></script>"
    (∀ i ∈ statements, i.Plain) ∧ ¬ "<script".toList <:+: "<scrip".toList ∧
      ¬ "<script".toList <:+: "</script>".toList ∧ importsName text "from" ∧
      importsName text "naïve" ∧ ¬ importsName text "X" := by
  intro statements text
  have hs : ∀ i ∈ statements, i.Plain := by
    simp only [statements, List.forall_mem_cons, Statement.plain_iff]
    decide +kernel
  have hb : ¬ "<script".toList <:+: "<scrip".toList := by decide +kernel
  have ha : ¬ "<script".toList <:+: "</script>".toList := by decide +kernel
  have ht : text = "<scrip" ++ "<script>" ++ String.join (statements.map Statement.written) ++
      "</script>" ++ "</script>" := by
    simp [text, statements, Statement.written, Statement.opening, Statement.path, String.join]
  have hi : ∀ name, importsName text name ↔ ∃ i ∈ statements, name ∈ i.names := by
    rw [ht]
    exact importsName_iff_mem_names statements "<scrip" "</script>" hs hb ha
  refine ⟨hs, hb, ha, (hi "from").2 ?_, (hi "naïve").2 ?_, fun h => ?_⟩
  · exact ⟨_, List.mem_cons_self, by decide⟩
  · exact ⟨_, List.mem_cons_of_mem _ List.mem_cons_self, by decide⟩
  · have hx := (hi "X").1 h
    simp [statements, Statement.names] at hx

end Ancestry.Source
