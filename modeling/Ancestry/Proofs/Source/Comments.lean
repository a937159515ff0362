import Ancestry.Proofs.Source.ImportStatements
import Mathlib.Data.List.DropRight
import Mathlib.Data.List.Infix

/-!
An import statement behind comment lines. A list of names may go over line ends, so the word `import`
in the last comment can open a list that takes in the statement below it. The sign `/` of each comment
line ends such a list, so the comments before the last one do no harm.
-/

namespace Ancestry.Source
open Ancestry.Text

variable {s t m w list name path rest : List Char} {c : Char}

section Reading

theorem exists_quote_of_quotedPath? (h : quotedPath? s = some rest) :
    ∃ q t, s = q :: t ∧ isQuote q := by
  cases s with
  | nil => cases h
  | cons q t =>
    by_cases hq : isQuote q
    · exact ⟨q, t, rfl, hq⟩
    · rw [quotedPath?, if_neg hq] at h
      cases h

/-- Between a closing brace and the path there is the word `from` and white space, and nothing else. -/
theorem fromPath?_takeWhile (h : fromPath? s = some rest) :
    ∀ x ∈ s.takeWhile (!isQuote ·), isSpace x ∨ x ∈ "from".toList := by
  simp only [fromPath?, bind, Option.bind_eq_some_iff] at h
  obtain ⟨word, h₁, gap, h₂, path, h₃, h₄⟩ := h
  obtain ⟨lead, rfl, hl⟩ := eq_append_of_spaces? h₁
  obtain rfl := eq_append_of_after? h₂
  obtain ⟨trail, rfl, ht⟩ := eq_append_of_spaces? h₃
  obtain ⟨q, t, rfl, hq⟩ := exists_quote_of_quotedPath? h₄
  have hs : lead ++ ("from".toList ++ (trail ++ q :: t)) =
      (lead ++ "from".toList ++ trail) ++ q :: t := by
    simp only [List.append_assoc]
  have hc : ∀ x ∈ lead ++ "from".toList ++ trail, isSpace x ∨ x ∈ "from".toList := by
    intro x hx
    rw [List.mem_append, List.mem_append] at hx
    obtain (hx | hx) | hx := hx
    · exact .inl (hl x hx)
    · exact .inr hx
    · exact .inl (ht x hx)
  have hn : ∀ x ∈ lead ++ "from".toList ++ trail, (!isQuote x) = true := by
    have hf : ∀ x ∈ "from".toList, (!isQuote x) = true := List.all_eq_true.1 (by decide)
    intro x hx
    cases hc x hx with
    | inl hx =>
      by_cases hq : isQuote x
      · simp [isSpace_eq_false_of_isQuote hq] at hx
      · simpa using hq
    | inr hx => exact hf x hx
  rw [hs, takeWhile_stop hn (by simp [hq])]
  exact hc

/-- A list that another character ends before the statement does not reach the path of it. -/
theorem importList?_broken (hn : ¬ ∀ x ∈ list, isListed x) (hq : ∀ x ∈ list, isQuote x = false)
    (ht : 'i' ∈ t.takeWhile (!isQuote ·)) (lead : List Char) (braced : Bool) :
    importList? lead braced (list ++ t) = none := by
  have hd : list.dropWhile isListed ≠ [] := by rwa [Ne, List.dropWhile_eq_nil_iff]
  obtain ⟨d, more, he⟩ := List.exists_cons_of_ne_nil hd
  have hs : ∀ x ∈ d :: more, isQuote x = false := by
    rw [← he]
    exact fun x hx => hq x ((List.dropWhile_sublist isListed).mem hx)
  have ha : (list ++ t).dropWhile isListed = d :: (more ++ t) := by
    rw [List.dropWhile_append, he, List.isEmpty_cons, if_neg Bool.false_ne_true, List.cons_append]
  rw [importList?, ha]
  split
  · rename_i tail hc
    obtain ⟨-, rfl⟩ := List.cons.inj hc
    -- behind the brace stands more than the word `from`
    have hf : fromPath? (more ++ t) = none := by
      rw [Option.eq_none_iff_forall_ne_some]
      intro rest hr
      have hi : 'i' ∈ (more ++ t).takeWhile (!isQuote ·) := by
        rw [List.takeWhile_append_of_pos fun x hx => by simp [hs x (List.mem_cons_of_mem d hx)]]
        exact List.mem_append_right more ht
      cases fromPath?_takeWhile hr 'i' hi with
      | inl h => exact absurd h (by decide)
      | inr h => exact absurd h (by decide)
    simp only [hf, Option.map_none, ite_self]
  · have hp : quotedPath? (d :: (more ++ t)) = none := by
      rw [quotedPath?, if_neg (by simp [hs d List.mem_cons_self])]
    simp only [hp, bind, Option.bind_none, Option.bind_fun_none]

theorem trim_behind (hn : name ≠ []) (hw : ∀ x ∈ name, isWord x) (s : List Char) :
    trim (s ++ ("import ".toList ++ name)) = s.dropWhile isSpace ++ ("import ".toList ++ name) := by
  have hi : ∀ x ∈ ("import ".toList ++ name).head?, isSpace x = false := by
    intro x hx
    rw [← Option.some.inj hx]
    decide
  obtain ⟨front, d, rfl⟩ := (List.eq_nil_or_concat' name).resolve_left hn
  have hd : isSpace d = false := isSpace_eq_false_of_isWord (hw d (by simp))
  rw [trim, trimLeft, dropWhile_append_stop hi, ← List.append_assoc, ← List.append_assoc]
  exact List.rdropWhile_concat_neg isSpace _ d (by simp [hd])

theorem eq_trim_of_mem_listedNames (hc : ',' ∉ s) (h : name ∈ listedNames s) : name = trim s := by
  rw [listedNames, List.splitOn_eq_singleton hc] at h
  simpa using (List.mem_filter.1 h).1

/-- The last part of a list that takes in the statement holds the word `import` beside the name. So the
name is found just if it stands before a comma. -/
theorem mem_listedNames_behind (hn : name ≠ []) (hw : ∀ x ∈ name, isWord x) :
    name ∈ listedNames (list ++ ("import ".toList ++ name)) ↔
      ∃ before behind, list = before ++ ',' :: behind ∧ name ∈ listedNames before := by
  have hlast : ∀ last, ',' ∉ last → name ∉ listedNames (last ++ ("import ".toList ++ name)) := by
    intro last hc hm
    have hcn : ',' ∉ last ++ ("import ".toList ++ name) := by
      have hwn : ',' ∉ name := fun hm => absurd (hw _ hm) (by decide)
      simp [hc, hwn]
    have ht := eq_trim_of_mem_listedNames hcn hm
    rw [trim_behind hn hw] at ht
    have hb : ' ' ∈ name := by
      rw [ht]
      simp
    exact absurd (hw _ hb) (by decide)
  constructor
  · intro h
    by_cases hc : ',' ∈ list
    · -- the last comma divides the names of the list from the part with the statement
      obtain ⟨back, front, hr, hb⟩ := List.eq_append_cons_of_mem (List.mem_reverse.2 hc)
      have hl : list = front.reverse ++ ',' :: back.reverse := by
        rw [← List.reverse_reverse list, hr]
        simp
      rw [hl, List.append_assoc, List.cons_append, listedNames_comma, List.mem_append] at h
      exact ⟨_, _, hl, h.resolve_right (hlast _ (by simpa using hb))⟩
    · exact absurd h (hlast list hc)
  · rintro ⟨before, behind, rfl, hm⟩
    rw [List.append_assoc, List.cons_append, listedNames_comma]
    exact List.mem_append_left _ hm

end Reading

section OpenLists

/-- The list of names behind the word `import`, if white space comes first and then, with or without a
brace, the list goes on up to the end of the text. -/
def openList? (s : List Char) : Option (List Char) :=
  if s.takeWhile isSpace = [] then none
  else
    let list := match s.dropWhile isSpace with
      | '\x7b' :: list => list
      | list => list
    if list.all isListed then some list else none

/-- The list of names that the first fitting `import` of a text leaves open at its end. -/
def leftOpen? (s : List Char) : Option (List Char) :=
  s.tails.findSome? fun place => (after? "import".toList place).bind openList?

theorem leftOpen?_of_some (h : (after? "import".toList (c :: s)).bind openList? = some list) :
    leftOpen? (c :: s) = some list := by
  rw [leftOpen?, List.tails_cons, List.findSome?_cons, h]

theorem leftOpen?_of_none (h : (after? "import".toList (c :: s)).bind openList? = none) :
    leftOpen? (c :: s) = leftOpen? s := by
  rw [leftOpen?, List.tails_cons, List.findSome?_cons, h]
  rfl

/-- No list goes over the sign of a comment line. -/
theorem openList?_eq_none (h : '/' ∈ s) : openList? s = none := by
  have hd : '/' ∈ s.dropWhile isSpace := by
    rw [← List.takeWhile_append_dropWhile (p := isSpace) (l := s), List.mem_append] at h
    exact h.resolve_left fun hm => absurd (List.mem_takeWhile_imp hm) (by decide)
  have hn : ∀ {list : List Char}, '/' ∈ list → ¬ list.all isListed := fun hm hl =>
    absurd (List.all_eq_true.1 hl _ hm) (by decide)
  rw [openList?]
  split
  · rfl
  · split
    · rename_i list hs
      rw [hs] at hd
      exact if_neg (hn (by simpa using hd))
    · exact if_neg (hn hd)

theorem leftOpen?_append (h : '/' ∈ s) (m : List Char) : leftOpen? (m ++ s) = leftOpen? s := by
  induction m with
  | nil => rfl
  | cons c m ih =>
    rw [List.cons_append, leftOpen?_of_none, ih]
    rw [Option.bind_eq_none_iff]
    intro w hw
    apply openList?_eq_none
    -- the sign stands behind the word, since it is no letter of it
    have hm : '/' ∈ c :: (m ++ s) := List.mem_cons_of_mem c (List.mem_append_right m h)
    rw [eq_append_of_after? hw, List.mem_append] at hm
    exact hm.resolve_left (by decide)

theorem leftOpen?_cons (hc : c ≠ 'i') (s : List Char) : leftOpen? (c :: s) = leftOpen? s := by
  apply leftOpen?_of_none
  have hw : "import".toList = 'i' :: "mport".toList := by decide
  rw [hw, after?, if_neg (Ne.symm hc), Option.bind_none]

end OpenLists

section Statements
variable {name path : String}

namespace Statement

theorem exists_cons_word (name path : String) (rest : List Char) :
    ∃ t, (word name path).written.toList ++ rest = 'i' :: t := by
  have hw : "import ".toList = 'i' :: "mport ".toList := by decide
  rw [toList_word, hw]
  exact ⟨_, rfl⟩

theorem Plain.isWord (h : (word name path).Plain) : ∀ x ∈ name.toList, isWord x :=
  (h.names name (by simp [Statement.names])).2

theorem Plain.name_ne (h : (word name path).Plain) : name.toList ≠ [] := by
  simpa using (h.names name (by simp [Statement.names])).1

end Statement

theorem importList?_behind {lead : List Char} (h : (Statement.word name path).Plain)
    (hd : lead ≠ []) (hq : ∀ x ∈ list, isQuote x = false) (braced : Bool) (rest : List Char) :
    importList? lead braced (list ++ ((Statement.word name path).written.toList ++ rest)) =
      if list.all isListed then
        some (listedNames (list ++ ("import ".toList ++ name.toList)), '\n' :: rest)
      else none := by
  by_cases hl : list.all isListed
  · have hr : ∀ x ∈ list ++ ("import ".toList ++ name.toList), isListed x := by
      have hi : ∀ x ∈ "import ".toList, isListed x := List.all_eq_true.1 (by decide)
      intro x hx
      rw [List.mem_append, List.mem_append] at hx
      obtain hx | hx | hx := hx
      · exact List.all_eq_true.1 hl x hx
      · exact hi x hx
      · exact isListed_of_isWord (h.isWord x hx)
    have hn : list ++ ("import ".toList ++ name.toList) ≠ [] := by simp
    have ht : list ++ ((Statement.word name path).written.toList ++ rest) =
        (list ++ ("import ".toList ++ name.toList)) ++
          (" from '".toList ++ (path.toList ++ '\'' :: '\n' :: rest)) := by
      simp only [Statement.toList_word, List.append_assoc]
    have hp : path.toList ≠ [] := by simpa [Statement.path] using h.path_ne
    rw [if_pos hl, ht, importList?_run hr hn hd hp h.path]
  · have hb : ¬ ∀ x ∈ list, isListed x := by rwa [List.all_eq_true] at hl
    have hi : 'i' ∈ ((Statement.word name path).written.toList ++ rest).takeWhile (!isQuote ·) := by
      obtain ⟨t, ht⟩ := Statement.exists_cons_word name path rest
      rw [ht, List.takeWhile_cons_of_pos (by decide)]
      exact List.mem_cons_self
    rw [if_neg hl, importList?_broken hb hq hi]

/-- Behind the word `import` and a text that follows it, the statement is read as a part of the list
that the word opens, or not at all. -/
theorem readImport?_behind (h : (Statement.word name path).Plain)
    (hq : ∀ x ∈ s, isQuote x = false) (rest : List Char) :
    readImport? ("import".toList ++ (s ++ ((Statement.word name path).written.toList ++ rest))) =
      (openList? s).map fun list =>
        (listedNames (list ++ ("import ".toList ++ name.toList)), '\n' :: rest) := by
  obtain ⟨t, ht⟩ := Statement.exists_cons_word name path rest
  have hi : ∀ x ∈ ((Statement.word name path).written.toList ++ rest).head?,
      isSpace x = false := by
    rw [ht]
    simp only [List.head?_cons, Option.mem_some, forall_eq']
    decide
  have hd : ∀ x ∈ s.dropWhile isSpace, isQuote x = false := fun x hx =>
    hq x ((List.dropWhile_sublist isSpace).mem hx)
  rw [readImport?, after?_append, openList?]
  simp only [bind, Option.bind_some, takeWhile_append_stop hi, dropWhile_append_stop hi]
  by_cases hl : s.takeWhile isSpace = []
  · rw [if_pos hl, if_pos hl, Option.map_none]
  · rw [if_neg hl, if_neg hl]
    have hb : ∀ {list : List Char} {braced : Bool}, (∀ x ∈ list, isQuote x = false) →
        importList? (s.takeWhile isSpace) braced
          (list ++ ((Statement.word name path).written.toList ++ rest)) =
        Option.map (fun list =>
          (listedNames (list ++ ("import ".toList ++ name.toList)), '\n' :: rest))
          (if list.all isListed then some list else none) := by
      intro list braced hq
      rw [importList?_behind h hl hq]
      split <;> rfl
    by_cases hx : (s.dropWhile isSpace).head? = some '\x7b'
    · obtain ⟨more, he⟩ := List.head?_eq_some_iff.1 hx
      rw [he] at hd ⊢
      exact hb fun x hm => hd x (List.mem_cons_of_mem _ hm)
    · have hn : (s.dropWhile isSpace ++
          ((Statement.word name path).written.toList ++ rest)).head? ≠ some '\x7b' := by
        rw [ht]
        cases he : s.dropWhile isSpace with
        | nil => simp
        | cons d more => simpa [he] using hx
      split
      · rename_i hc
        rw [hc] at hn
        exact absurd rfl hn
      · split
        · rename_i hc
          rw [hc] at hx
          exact absurd rfl hx
        · exact hb hd

theorem read_behind (h : (Statement.word name path).Plain) (hs : s ≠ [])
    (hq : ∀ x ∈ s, isQuote x = false) (hl : ∀ x ∈ s.getLast?, x = '\n') (rest : List Char) :
    importStatement.read (s ++ ((Statement.word name path).written.toList ++ rest)) =
      ((after? "import".toList s).bind openList?).map fun list =>
        (listedNames (list ++ ("import ".toList ++ name.toList)), '\n' :: rest) := by
  have hn : ∀ x ∈ s.getLast?, x ∉ "import".toList := by
    intro x hx
    rw [hl x hx]
    decide
  change readImport? _ = _
  cases ha : after? "import".toList s with
  | none =>
    have hc := after?_append_of_last hs hn ((Statement.word name path).written.toList ++ rest)
    rw [ha, Option.map_none] at hc
    rw [readImport?, hc]
    rfl
  | some w =>
    obtain rfl := eq_append_of_after? ha
    rw [List.append_assoc]
    exact readImport?_behind h (fun x hx => hq x (List.mem_append_right _ hx)) rest

/-- The names that the statement is read to import behind a text: a list that the text leaves open goes
on into the statement. -/
def namesBehind (s : List Char) (name : String) : List (List Char) :=
  (leftOpen? s).elim [name.toList] fun list => listedNames (list ++ ("import ".toList ++ name.toList))

theorem all_behind (h : (Statement.word name path).Plain) (hq : ∀ x ∈ s, isQuote x = false)
    (hl : ∀ x ∈ s.getLast?, x = '\n') (rest : List Char) :
    importStatement.all (s ++ ((Statement.word name path).written.toList ++ rest)) =
      namesBehind s name :: importStatement.all rest := by
  induction s with
  | nil => exact h.all rest
  | cons c s ih =>
    have hr := read_behind h (List.cons_ne_nil c s) hq hl rest
    cases ho : (after? "import".toList (c :: s)).bind openList? with
    | none =>
      have hs : ∀ x ∈ s.getLast?, x = '\n' := by
        intro x hx
        apply hl x
        rw [List.getLast?_cons, hx]
        rfl
      rw [ho, Option.map_none, List.cons_append] at hr
      rw [List.cons_append, importStatement.all_cons_of_none hr,
        ih (fun x hx => hq x (List.mem_cons_of_mem c hx)) hs, namesBehind, namesBehind,
        leftOpen?_of_none ho]
    | some list =>
      rw [ho, Option.map_some] at hr
      rw [importStatement.all_of_read hr, Statement.all_lineFeed, namesBehind, leftOpen?_of_some ho,
        Option.elim_some]

/-- A comment, on a line of its own. -/
def commentLine (comment : String) : String :=
  "// " ++ comment ++ "\n"

theorem toList_commentLine (comment : String) :
    (commentLine comment).toList = '/' :: '/' :: ' ' :: (comment.toList ++ ['\n']) := by
  simp [commentLine]

theorem infix_commentLine_iff (comment : String) (rest : List Char) :
    "</script>".toList <:+: (commentLine comment).toList ++ rest ↔
      "</script>".toList <:+: comment.toList ∨ "</script>".toList <:+: rest := by
  have ht : (commentLine comment).toList ++ rest =
      ['/', '/'] ++ ' ' :: (comment.toList ++ '\n' :: rest) := by
    simp [toList_commentLine]
  have hs : ¬ "</script>".toList <:+: ['/', '/'] := by decide
  rw [ht, infix_append_cons_iff (by decide), infix_append_cons_iff (by decide), or_iff_right hs]

theorem mem_map_ofList {names : List (List Char)} :
    name ∈ names.map String.ofList ↔ name.toList ∈ names := by
  constructor
  · intro h
    obtain ⟨n, hn, rfl⟩ := List.mem_map.1 h
    rwa [String.toList_ofList]
  · intro h
    exact List.mem_map.2 ⟨name.toList, h, String.ofList_toList⟩

theorem mem_namesBehind_iff (h : (Statement.word name path).Plain) :
    name.toList ∈ namesBehind s name ↔ ∀ list ∈ leftOpen? s,
      ∃ before behind, list = before ++ ',' :: behind ∧ name.toList ∈ listedNames before := by
  rw [namesBehind]
  cases leftOpen? s with
  | none => simp
  | some list =>
    simp only [Option.elim_some, Option.mem_some, forall_eq']
    exact mem_listedNames_behind h.name_ne h.isWord

/-- The lines of a script before the statement. -/
def linesAbove (comments : List String) : List Char :=
  '\n' :: comments.flatMap fun c => (commentLine c).toList

/-- Only the last comment can leave a list open. -/
theorem leftOpen?_linesAbove (comments : List String) :
    leftOpen? (linesAbove comments) =
      comments.getLast?.bind fun last => leftOpen? (last.toList ++ ['\n']) := by
  rw [linesAbove, leftOpen?_cons (by decide)]
  cases List.eq_nil_or_concat' comments with
  | inl h =>
    rw [h]
    rfl
  | inr h =>
    obtain ⟨front, last, rfl⟩ := h
    rw [List.flatMap_append, List.flatMap_singleton, toList_commentLine,
      leftOpen?_append List.mem_cons_self, leftOpen?_cons (by decide), leftOpen?_cons (by decide),
      leftOpen?_cons (by decide), List.getLast?_concat, Option.bind_some]

theorem getLast?_linesAbove (comments : List String) :
    ∀ x ∈ (linesAbove comments).getLast?, x = '\n' := by
  have hl : ∃ front, linesAbove comments = front ++ ['\n'] := by
    cases List.eq_nil_or_concat' comments with
    | inl h =>
      rw [h]
      exact ⟨[], rfl⟩
    | inr h =>
      obtain ⟨front, last, rfl⟩ := h
      rw [linesAbove, List.flatMap_append, List.flatMap_singleton, toList_commentLine]
      exact ⟨_, by rw [← List.cons_append, ← List.cons_append, ← List.cons_append,
        ← List.cons_append, ← List.append_assoc]⟩
  intro x hx
  obtain ⟨front, hf⟩ := hl
  rw [hf, List.getLast?_concat] at hx
  exact (Option.some.inj hx).symm

theorem isQuote_of_mem_linesAbove {comments : List String}
    (hc : ∀ c ∈ comments, ∀ x ∈ c.toList, isQuote x = false) :
    ∀ x ∈ linesAbove comments, isQuote x = false := by
  have hs : ∀ x ∈ ['/', ' ', '\n'], isQuote x = false := by simp [isQuote]
  intro x hx
  rw [linesAbove, List.mem_cons, List.mem_flatMap] at hx
  obtain rfl | ⟨c, hm, hx⟩ := hx
  · exact hs _ (by simp)
  · by_cases hxc : x ∈ c.toList
    · exact hc c hm x hxc
    · rw [toList_commentLine] at hx
      exact hs x (by simpa [hxc] using hx)

theorem not_infix_linesAbove {comments : List String}
    (hc : ∀ c ∈ comments, ¬ "</script>".toList <:+: c.toList) (hs : ¬ "</script>".toList <:+: s) :
    ¬ "</script>".toList <:+: linesAbove comments ++ s := by
  have hl : ¬ "</script>".toList <:+: (comments.flatMap fun c => (commentLine c).toList) ++ s := by
    induction comments with
    | nil => exact hs
    | cons c comments ih =>
      rw [List.flatMap_cons, List.append_assoc, infix_commentLine_iff, not_or]
      exact ⟨hc c List.mem_cons_self, ih fun d hd => hc d (List.mem_cons_of_mem c hd)⟩
  have he : ¬ "</script>".toList <:+: [] := by decide
  have ht : linesAbove comments ++ s =
      [] ++ '\n' :: ((comments.flatMap fun c => (commentLine c).toList) ++ s) := rfl
  rw [ht, infix_append_cons_iff (by decide), or_iff_right he]
  exact hl

/-- The names that are imported by a script of comment lines and one statement. -/
theorem importedNames_comments {comments : List String}
    (hc : ∀ c ∈ comments, (∀ x ∈ c.toList, isQuote x = false) ∧
      ¬ "</script>".toList <:+: c.toList) (h : (Statement.word name path).Plain) :
    importedNames ("<script>\n" ++ String.join (comments.map commentLine) ++
      (Statement.word name path).written ++ "</script>") =
      (namesBehind (linesAbove comments) name).map String.ofList := by
  let body := "\n" ++ String.join (comments.map commentLine) ++ (Statement.word name path).written
  have ht : "<script>\n" ++ String.join (comments.map commentLine) ++
      (Statement.word name path).written ++ "</script>" =
      "" ++ "<script>" ++ body ++ "</script>" ++ "" := by
    have ho : "<script>\n".toList = "<script>".toList ++ "\n".toList := by decide
    rw [← String.toList_inj]
    simp only [body, String.toList_append, ho, List.append_assoc, String.toList_empty,
      List.nil_append, List.append_nil]
  have hb : body.toList = linesAbove comments ++ (Statement.word name path).written.toList := by
    simp [body, linesAbove, String.toList_join, List.flatMap_map]
  have hs : ¬ "</script>".toList <:+: (Statement.word name path).written.toList := by
    have hi := h.infix_iff []
    rw [List.append_nil] at hi
    rw [hi]
    decide
  have hn : ¬ "</script>".toList <:+: body.toList := by
    rw [hb]
    exact not_infix_linesAbove (fun c hm => (hc c hm).2) hs
  have he : ¬ "<script".toList <:+: "".toList := by decide
  rw [importedNames, ht, script_one he hn he, hb, List.append_assoc,
    all_behind h (isQuote_of_mem_linesAbove fun c hm => (hc c hm).1) (getLast?_linesAbove comments),
    Statement.all_lineFeed, importStatement.all_nil, List.flatten_singleton]

/-- An import statement behind comment lines counts, unless the last comment leaves a list of names
open. Then the list takes in the statement, and its name counts only if the comment lists it too. -/
theorem import_behind_comments_iff (comments : List String) (name path : String)
    (hc : ∀ c ∈ comments, (∀ x ∈ c.toList, isQuote x = false) ∧
      ¬ "</script>".toList <:+: c.toList)
    (hs : (Statement.word name path).Plain) :
    importsName ("<script>\n" ++ String.join (comments.map commentLine) ++
      (Statement.word name path).written ++ "</script>") name ↔
      ∀ last ∈ comments.getLast?, ∀ list ∈ leftOpen? (last.toList ++ ['\n']),
        ∃ before behind, list = before ++ ',' :: behind ∧ name.toList ∈ listedNames before := by
  rw [importsName, importedNames_comments hc hs, List.contains_iff_mem, mem_map_ofList,
    mem_namesBehind_iff hs, leftOpen?_linesAbove]
  cases comments.getLast? with
  | none => simp
  | some last => simp

/-- A comment that ends in the word `import` hides the statement below it. -/
theorem comment_hides_import :
    let comment := "see import"
    '\n' ∉ comment.toList ∧ (∀ x ∈ comment.toList, isQuote x = false) ∧
      ¬ "</script>".toList <:+: comment.toList ∧ (Statement.word "X" "P").Plain ∧
      "<script>\n// see import\nimport X from 'P'\n</script>" =
        "<script>\n" ++ commentLine comment ++ (Statement.word "X" "P").written ++ "</script>" ∧
      importsName "<script>\n// see import\nimport X from 'P'\n</script>" "X" = false := by
  intro comment
  have hs : (Statement.word "X" "P").Plain := by
    rw [Statement.plain_iff]
    decide +kernel
  have hq : ∀ x ∈ comment.toList, isQuote x = false := by simp [comment, isQuote]
  exact ⟨by decide, hq, by decide +kernel, hs, by decide +kernel, by decide +kernel⟩

theorem import_behind_comments_iff_listed :
    let comments := ["we import", "import \x7b A, X, see below"]
    (∀ c ∈ comments, (∀ x ∈ c.toList, isQuote x = false) ∧
      ¬ "</script>".toList <:+: c.toList) ∧ (Statement.word "X" "P").Plain ∧
      leftOpen? ("import \x7b A, X, see below".toList ++ ['\n']) =
        some " A, X, see below\n".toList ∧
      importsName ("<script>\n" ++ String.join (comments.map commentLine) ++
        (Statement.word "X" "P").written ++ "</script>") "X" := by
  intro comments
  have hc : ∀ c ∈ comments, (∀ x ∈ c.toList, isQuote x = false) ∧
      ¬ "</script>".toList <:+: c.toList := by
    rw [List.forall_mem_cons, List.forall_mem_singleton]
    exact ⟨⟨by simp [isQuote], by decide +kernel⟩, by simp [isQuote], by decide +kernel⟩
  have hs : (Statement.word "X" "P").Plain := by
    rw [Statement.plain_iff]
    decide +kernel
  have ho : leftOpen? ("import \x7b A, X, see below".toList ++ ['\n']) =
      some " A, X, see below\n".toList := by
    decide +kernel
  refine ⟨hc, hs, ho, (import_behind_comments_iff comments "X" "P" hc hs).2 ?_⟩
  intro last hl list hm
  obtain rfl := Option.some.inj hl
  obtain rfl := Option.some.inj (ho.symm.trans hm)
  exact ⟨" A, X".toList, " see below\n".toList, by decide, by decide +kernel⟩

end Statements

end Ancestry.Source
