import Ancestry.Proofs.Disk.Enumeration
import Ancestry.Proofs.Path.Components

/-!
Settings that are accepted and settings that can be used. An extension is accepted for its first
dot, but no name has an extension with another dot or with a slash. A path pattern is accepted
unless it is blank, but only relative paths with some component are path patterns, and two asterisks
stand alone in them. A pattern of very many components takes up the stack before anything is looked for.
-/

namespace Ancestry
open Ancestry.Disk

namespace Text

theorem ne_of_isWord {c d : Char} (h : isWord c) (hd : isWord d = false) : c ≠ d := by
  rintro rfl
  simp [hd] at h

end Text

namespace Path

/-- Texts that can be an extension: no dot but the first, and no slash. -/
def OneDot (extension : String) : Prop :=
  '.' ∉ extension.toList.tail ∧ '/' ∉ extension.toList.tail

instance (extension : String) : Decidable (OneDot extension) :=
  inferInstanceAs (Decidable (_ ∧ _))

theorem dot_not_mem_splitName (name : List Char) : '.' ∉ (splitName name).2.tail := by
  rw [splitName]
  split
  · simp
  · intro hm
    have hd := List.mem_takeWhile_imp (List.mem_reverse.1 hm)
    simp at hd

theorem slash_not_mem_splitName {name : List Char} (h : '/' ∉ name) :
    '/' ∉ (splitName name).2.tail := by
  rw [splitName]
  split
  · simp
  · intro hm
    exact h (List.mem_reverse.1 ((List.takeWhile_sublist _).mem (List.mem_reverse.1 hm)))

theorem slash_not_mem_name (path : String) : '/' ∉ (ofString path).name.toList := by
  intro hm
  obtain hn | ⟨name, hn⟩ := Option.eq_none_or_eq_some (ofString path).parts.getLast?
  · simp [name, hn] at hm
  · have hpart := (List.mem_filter.1 (List.mem_of_getLast? hn)).1
    obtain ⟨part, hp, rfl⟩ := List.mem_map.1 hpart
    rw [Path.name, hn, Option.getD_some, String.toList_ofList] at hm
    exact (Text.mem_of_mem_splitOn hp '/' hm).2 rfl

/-- The extension of a path has one dot. -/
theorem oneDot_extension (path : String) : OneDot (ofString path).extension := by
  rw [OneDot, extension, String.toList_ofList]
  exact ⟨dot_not_mem_splitName _, slash_not_mem_splitName (slash_not_mem_name path)⟩

/-- A text without slashes that is written behind a slash is the name of the path. -/
theorem name_append (dir : String) {name : String} (h : IsPart name) :
    (ofString (dir ++ "/" ++ name)).name = name := by
  have hr : ofString name = ⟨.relative, [name]⟩ := by
    have hw : toString ⟨.relative, [name]⟩ = name := by
      rw [toString_relative (by simp)]
      simp
    have hp := ofString_toString (p := ⟨.relative, [name]⟩) (by simpa using h)
    rwa [hw] at hp
  rw [Path.name, parts_append, hr]
  simp

section
variable {stem extension : String}

/-- Behind a word, a text without slashes completes a name. -/
theorem isPart_word (hn : stem ≠ "") (hw : ∀ c ∈ stem.toList, Text.isWord c)
    (hs : '/' ∉ extension.toList) : IsPart (stem ++ extension) := by
  obtain ⟨c, s, hc⟩ := List.exists_cons_of_ne_nil (mt String.toList_eq_nil_iff.1 hn)
  rw [hc, List.forall_mem_cons] at hw
  have hl : (stem ++ extension).toList = c :: (s ++ extension.toList) := by simp [hc]
  refine ⟨fun he => ?_, fun he => ?_, ?_⟩
  · simp [he] at hl
  · obtain ⟨hd, -⟩ : '.' = c ∧ _ := by simpa [he] using hl
    exact Text.ne_of_isWord hw.1 (by decide) hd.symm
  · rw [hl, List.mem_cons, List.mem_append, not_or, not_or]
    exact ⟨(Text.ne_of_isWord hw.1 (by decide)).symm,
      fun hm => Text.ne_of_isWord (hw.2 _ hm) (by decide) rfl, hs⟩

/-- Behind a word, an extension of one dot is divided from it. -/
theorem splitName_word (dir : String) (hn : stem ≠ "") (hw : ∀ c ∈ stem.toList, Text.isWord c)
    (he : Settings.isExtension extension) (hd : OneDot extension) :
    splitName (ofString (dir ++ "/" ++ (stem ++ extension))).name.toList =
      (stem.toList, extension.toList) := by
  obtain ⟨c, e, hl⟩ : ∃ c e, extension.toList = '.' :: c :: e := by
    rw [Settings.isExtension] at he
    split at he
    · exact ⟨_, _, ‹_›⟩
    · cases he
  rw [OneDot, hl, List.tail_cons] at hd
  have hs : '/' ∉ extension.toList := by
    rw [hl, List.mem_cons, not_or]
    exact ⟨by decide, hd.2⟩
  rw [name_append dir (isPart_word hn hw hs), String.toList_append, hl, splitName_append hd.1,
    if_neg (by simpa using hn)]

end
end Path

namespace Disk

theorem exists_mapM_iff {ε α β : Type} {f : α → Except ε β} {l : List α} :
    (∃ out, l.mapM f = .ok out) ↔ ∀ a ∈ l, ∃ b, f a = .ok b := by
  induction l with
  | nil => simp [pure, Except.pure]
  | cons a l ih =>
    rw [List.forall_mem_cons, ← ih]
    simp only [List.mapM_cons, bind_eq_ok]
    constructor
    · rintro ⟨out, b, hb, bs, hbs, -⟩
      exact ⟨⟨b, hb⟩, bs, hbs⟩
    · rintro ⟨⟨b, hb⟩, bs, hbs⟩
      exact ⟨b :: bs, b, hb, bs, hbs, rfl⟩

namespace Selector
variable {part : String} {s : List Char}

theorem hasStars_iff : hasStars s ↔ ['*', '*'] <:+: s := by
  induction s with
  | nil => simp [hasStars]
  | cons c s ih =>
    rw [List.infix_cons_iff, ← ih]
    by_cases hp : ['*', '*'] <+: c :: s
    · obtain ⟨rest, hr⟩ := hp
      obtain ⟨rfl, rfl⟩ : c = '*' ∧ s = '*' :: rest := by simpa [eq_comm] using hr
      simp [hasStars]
    · rw [hasStars.eq_2, or_iff_right hp]
      rintro rest rfl rfl
      exact hp ⟨rest, rfl⟩

theorem exists_ofString_iff :
    (∃ selector, ofString part = .ok selector) ↔ part = "**" ∨ ¬ ['*', '*'] <:+: part.toList := by
  rw [← hasStars_iff, ofString]
  by_cases hd : part = "**"
  · simp [hd]
  · by_cases hs : hasStars part.toList
    · simp [hd, hs]
    · simp only [hd, hs, if_false, Bool.false_eq_true, not_false_eq_true, or_true, iff_true]
      split
      · exact ⟨_, rfl⟩
      · exact ⟨_, rfl⟩

end Selector

namespace Glob
variable {pattern : String}

/-- Texts that are path patterns. -/
def Readable (pattern : String) : Prop :=
  (Path.ofString pattern).anchor = .relative ∧ (Path.ofString pattern).parts ≠ [] ∧
    ∀ part ∈ (Path.ofString pattern).parts, part = "**" ∨ ¬ ['*', '*'] <:+: part.toList

instance (pattern : String) : Decidable (Readable pattern) :=
  inferInstanceAs (Decidable (_ ∧ _ ∧ _))

theorem exists_ofString_iff : (∃ glob, ofString pattern = .ok glob) ↔ Readable pattern := by
  have hm := exists_mapM_iff (f := Selector.ofString) (l := (Path.ofString pattern).parts)
  simp only [Selector.exists_ofString_iff] at hm
  rw [Readable, ← hm]
  constructor
  · rintro ⟨glob, h⟩
    rw [ofString] at h
    split at h
    · cases h
    · split at h
      · cases h
      · rename_i ha
        split at h
        · cases h
        · rename_i hp
          obtain ⟨selectors, hs, -⟩ := bind_eq_ok.1 h
          exact ⟨by simpa [Path.isAbsolute] using ha, hp, selectors, hs⟩
  · rintro ⟨ha, hp, selectors, hs⟩
    have hn : pattern ≠ "" := by
      rintro rfl
      exact hp (by decide)
    refine ⟨⟨selectors, pattern.toList.getLast? = some '/'⟩, ?_⟩
    rw [ofString, if_neg hn, if_neg (by simp [Path.isAbsolute, ha]), if_neg hp, hs]
    rfl

end Glob
end Disk

section
variable {base settings : Settings} {value : Yaml.Value}

/-- What is accepted as an extension is a text, and it is taken over. -/
theorem Settings.put?_extension (h : base.put? .componentExtension value = some settings) :
    value = .text settings.componentExtension ∧ isExtension settings.componentExtension := by
  cases value with
  | text text =>
    rw [put?] at h
    split at h
    · cases h
      exact ⟨rfl, ‹_›⟩
    · cases h
  | _ => cases h

/-- What is accepted as a path pattern is a text; it is taken over, and the extension stays. -/
theorem Settings.put?_glob (h : base.put? .componentGlob value = some settings) :
    value = .text settings.componentGlob ∧
      settings.componentExtension = base.componentExtension := by
  cases value with
  | text text =>
    rw [put?] at h
    split at h
    · cases h
    · cases h
      exact ⟨rfl, rfl⟩
  | _ => cases h

end

theorem candidates_eq_error {tree : Tree} {root : Path} {pattern : String} {rules : IgnoreRules}
    {glob : Glob} {error : GlobError} (hg : Glob.ofString pattern = .ok glob)
    (h : candidates tree root pattern rules = .error error) :
    ∃ path, error = .path ⟨path, .nameTooLong⟩ := by
  rw [candidates, hg] at h
  obtain h | ⟨_, hg', h⟩ := bind_eq_error.1 h
  · cases h
  · cases hg'
    obtain h | ⟨paths, -, h⟩ := bind_eq_error.1 h
    · cases hf : glob.files tree root.parts with
      | ok paths =>
        rw [hf] at h
        cases h
      | error fault =>
        rw [hf] at h
        cases h
        exact ⟨fault.path, by rw [← Glob.fault_of_files hf]⟩
    · cases h

namespace Disk.Glob
variable {stack : Stack} {pattern : String} {glob : Glob}

theorem ofString_of_prepare (h : prepare stack pattern = .ok glob) : ofString pattern = .ok glob := by
  simp only [prepare] at h
  split at h
  · exact h
  · cases h

theorem exists_prepare_iff : (∃ glob, prepare stack pattern = .ok glob) ↔
    Readable pattern ∧ stack.prepares (Path.ofString pattern).parts := by
  constructor
  · rintro ⟨glob, h⟩
    have hr : Readable pattern := exists_ofString_iff.1 ⟨glob, ofString_of_prepare h⟩
    refine ⟨hr, ?_⟩
    by_contra hp
    simp [prepare, Path.isAbsolute, hr.1, hr.2.1, hp] at h
  · rintro ⟨hr, hp⟩
    rw [prepare_of_prepares hp]
    exact exists_ofString_iff.2 hr

end Disk.Glob

/-- Where the candidates are not listed, a path is too long or the stack is used up. -/
theorem listCandidates_eq_error {stack : Stack} {tree : Tree} {root : Path} {pattern : String}
    {rules : IgnoreRules} {glob : Glob} {error : GlobError}
    (hg : Glob.prepare stack pattern = .ok glob)
    (h : listCandidates stack tree root pattern rules = .error error) :
    stack.searches tree root.parts glob = false ∧ error = .tooDeep ∨
      ∃ path, error = .path ⟨path, .nameTooLong⟩ := by
  cases hs : stack.searches tree root.parts glob with
  | true =>
    rw [listCandidates_of_searches hg hs] at h
    exact .inr (candidates_eq_error (Glob.ofString_of_prepare hg) h)
  | false =>
    have ht : listCandidates stack tree root pattern rules = .error .tooDeep := by
      rw [listCandidates, hg]
      exact if_neg (by simp [hs])
    exact .inl ⟨rfl, Except.error.inj (h.symm.trans ht)⟩

/-- A text that cannot be prepared as a path pattern fails in the same way everywhere. -/
theorem listCandidates_of_not_prepared {stack : Stack} {pattern : String}
    (h : ¬ (Glob.Readable pattern ∧ stack.prepares (Path.ofString pattern).parts)) :
    ∃ error, ∀ tree root rules, listCandidates stack tree root pattern rules = .error error := by
  cases hg : Glob.prepare stack pattern with
  | ok glob => exact absurd (Glob.exists_prepare_iff.1 ⟨glob, hg⟩) h
  | error error => exact ⟨error, fun tree root rules => by rw [listCandidates, hg]; rfl⟩

/-- An extension that is accepted makes components of the files that have it if it has one dot and
no slash, and else of no file. A path pattern that is accepted fails on paths that are too long, or
where the search takes up the stack, and on nothing else, if it is one at all and the stack lasts until
it is prepared, and else on every tree. -/
theorem accepted_selectors_usable_iff {base extended settings : Settings}
    {extension pattern : Yaml.Value} {tree : Tree} {here : Path} {root? : Option Path}
    {project : Project} {entries : List Log.Entry} (stack : Stack)
    (taken : base.put? .componentExtension extension = some extended)
    (added : extended.put? .componentGlob pattern = some settings)
    (made : Project.new tree here root? settings = .ok (project, entries)) :
    let e := settings.componentExtension
    let g := settings.componentGlob
    let w := (Server.watch settings project).1
    let prepared := stack.prepares (Path.ofString g).parts
    extension = .text e ∧ pattern = .text g ∧
      ((∀ dir stem : String, stem ≠ "" → (∀ c ∈ stem.toList, Text.isWord c) →
          let path := dir ++ "/" ++ (stem ++ e)
          project.session.isComponent path ∧ w.isComponent path ∧ componentName path = stem) ↔
        Path.OneDot e) ∧
      (¬ Path.OneDot e → ∀ path : String,
        project.session.isComponent path = false ∧ w.isComponent path = false) ∧
      (Glob.Readable g ∧ prepared → ∃ glob, Glob.ofString g = .ok glob ∧
        (∀ tree root rules error, listCandidates stack tree root g rules = .error error →
          stack.searches tree root.parts glob = false ∧ error = .tooDeep ∨
            ∃ path, error = .path ⟨path, .nameTooLong⟩) ∧
        ((∀ name, .name name ∈ glob.selectors → name.utf8ByteSize ≤ maxName) →
          ∀ (tree : Tree) (root : List String) (rules : IgnoreRules), tree.Sound →
            tree.Room (Glob.roomFor glob.selectors) → tree.isDirectory root →
            stack.searches tree root glob →
            ∃ found, listCandidates stack tree ⟨.root, root⟩ g rules = .ok found)) ∧
      (¬ (Glob.Readable g ∧ prepared) → ∃ error, ∀ tree root rules,
        listCandidates stack tree root g rules = .error error) := by
  intro e g w prepared
  obtain ⟨hp, hkept⟩ := Settings.put?_glob added
  obtain ⟨hv, he⟩ := Settings.put?_extension taken
  rw [← hkept] at hv he
  have hsession (path : String) :
      project.session.isComponent path = decide ((Path.ofString path).extension = e) := by
    obtain ⟨rules, rfl⟩ := Project.eq_of_new made
    rfl
  have hwatcher (path : String) :
      w.isComponent path = decide ((Path.ofString path).extension = e) := rfl
  refine ⟨hv, hp, ⟨fun h => ?_, fun hd dir stem hn hw => ?_⟩, fun hd path => ?_, fun hr => ?_,
    listCandidates_of_not_prepared⟩
  · obtain ⟨hc, -⟩ := h "" "a" (by decide) (List.all_eq_true.1 (by decide +kernel))
    rw [hsession, decide_eq_true_eq] at hc
    exact hc ▸ Path.oneDot_extension _
  · have hs := Path.splitName_word dir hn hw he hd
    have hext : (Path.ofString (dir ++ "/" ++ (stem ++ e))).extension = e := by
      rw [Path.extension, hs, String.ofList_toList]
    refine ⟨by simp [hsession, hext], by simp [hwatcher, hext], ?_⟩
    rw [componentName, Path.stem, hs, String.ofList_toList]
  · have hne : (Path.ofString path).extension ≠ e := fun h => hd (h ▸ Path.oneDot_extension path)
    exact ⟨by simp [hsession, hne], by simp [hwatcher, hne]⟩
  · obtain ⟨glob, hg⟩ := Glob.exists_prepare_iff.2 hr
    have ho := Glob.ofString_of_prepare hg
    refine ⟨glob, ho, fun tree root rules error h => listCandidates_eq_error hg h,
      fun hn tree root rules ht hroom hd hs => ?_⟩
    rw [listCandidates_of_searches hg hs]
    exact exists_candidates ht hd ho hroom hn

theorem accepted_selectors_usable_iff_default :
    Settings.default.put? .componentExtension (.text ".vue") = some .default ∧
      Settings.default.put? .componentGlob (.text "**/*.vue") = some .default ∧
      Path.OneDot ".vue" ∧ Glob.Readable "**/*.vue" ∧
      bareProject.session.isComponent "/p/src/Start_1.vue" ∧
      (Server.watch .default bareProject).1.isComponent "/p/src/Start_1.vue" ∧
      componentName "/p/src/Start_1.vue" = "Start_1" ∧
      ∀ error,
        listCandidates .ample bareTree ⟨.root, ["p"]⟩ "**/*.vue" bareProject.rules = .error error →
          ∃ path, error = .path ⟨path, .nameTooLong⟩ := by
  have hd : Path.OneDot ".vue" := by decide
  have hg : Glob.Readable "**/*.vue" := by decide +kernel
  have ht : Settings.default.put? .componentExtension (.text ".vue") = some .default := rfl
  have ha : Settings.default.put? .componentGlob (.text "**/*.vue") = some .default := rfl
  obtain ⟨-, -, hext, -, hglob, -⟩ := accepted_selectors_usable_iff .ample ht ha new_bareTree
  obtain ⟨_, -, hlisted, -⟩ := hglob ⟨hg, rfl⟩
  obtain ⟨hs, hw, hn⟩ :=
    hext.2 hd "/p/src" "Start_1" (by decide) (List.all_eq_true.1 (by decide +kernel))
  refine ⟨ht, ha, hd, hg, hs, hw, hn, fun error h => ?_⟩
  exact (hlisted _ _ _ error h).resolve_left (by simp [Stack.ample])

/-- A project with an extension of two dots and with asterisks that do not stand alone. -/
def compoundProject : Project :=
  ⟨⟨.root, ["p"]⟩, "src/**.vue", ⟨⟨.root, ["p"]⟩, [], ["**/node_modules/**"]⟩,
    64, Session.new false ".ce.vue" []⟩

/-- An extension of two dots is accepted, but the file that it is made for is no component; a path
pattern with asterisks beside a text is accepted, but lists nothing in any tree. -/
theorem unusable_selectors_accepted :
    let settings : Settings := { componentExtension := ".ce.vue", componentGlob := "src/**.vue" }
    let file := "/p/src/App.ce.vue"
    (∃ extended, Settings.default.put? .componentExtension (.text ".ce.vue") = some extended ∧
      extended.put? .componentGlob (.text "src/**.vue") = some settings) ∧
    (∃ entries, Project.new .empty ⟨.root, ["p"]⟩ none settings = .ok (compoundProject, entries)) ∧
    compoundProject.session.isComponent file = false ∧
    (Server.watch settings compoundProject).1.isComponent file = false ∧
    componentName file = "App.ce" ∧
    ∀ tree, listCandidates .ample tree compoundProject.root compoundProject.glob
      compoundProject.rules = .error .partialStars := by
  intro settings file
  have hr : IgnoreRules.new .empty ⟨.root, ["p"]⟩ none settings.patterns =
      .ok (compoundProject.rules, []) := by
    decide +kernel
  have hg : Glob.ofString "src/**.vue" = .error .partialStars := by decide +kernel
  have hp : Path.resolve ⟨.root, ["p"]⟩ ⟨.root, ["p"]⟩ = ⟨.root, ["p"]⟩ := by decide
  have hn : hasNull ⟨.root, ["p"]⟩ = false := by decide +kernel
  refine ⟨⟨_, rfl, rfl⟩, ?_, by decide +kernel, by decide +kernel, by decide +kernel,
    fun tree => ?_⟩
  · simp only [Project.new, Option.getD_none, hp, hn, hr]
    exact ⟨_, rfl⟩
  · simp only [listCandidates_ample, candidates, compoundProject, hg]
    rfl

end Ancestry
