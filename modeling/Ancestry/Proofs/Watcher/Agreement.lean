import Ancestry.Proofs.Disk.Selection
import Ancestry.Server

/-!
Candidates and the interest of a watcher. Both leave out what the rules ignore. Of the other files
one takes those that the pattern selects and the other those that have the extension, so they agree
where pattern and extension do.
-/

namespace Ancestry
open Ancestry.Disk

section
variable {tree : Tree} {root parts : List String} {pattern : String} {rules : IgnoreRules}
  {glob : Glob} {found : List String}

theorem candidates_eq_ok (hg : Glob.ofString pattern = .ok glob) :
    candidates tree ⟨.root, root⟩ pattern rules = .ok found ↔
      ∃ paths, glob.files tree root = .ok paths ∧
        (((paths.map (Path.mk .root)).filter (!rules.ignores ·)).map Path.toString).mergeSort =
          found := by
  rw [candidates, hg, bind_eq_ok]
  simp only [Except.ok.injEq, exists_eq_left', bind_eq_ok]
  cases glob.files tree root with
  | ok paths => simp [Except.mapError, pure, Except.pure]
  | error fault => simp [Except.mapError]

theorem Disk.Glob.prepare_of_prepares {stack : Stack}
    (h : stack.prepares (Path.ofString pattern).parts) : prepare stack pattern = ofString pattern := by
  rw [prepare, h, Bool.or_true]
  rfl

/-- The candidates are listed if the stack lasts. -/
theorem listCandidates_of_searches {stack : Stack} {root : Path}
    (hg : Glob.prepare stack pattern = .ok glob) (hs : stack.searches tree root.parts glob) :
    listCandidates stack tree root pattern rules = candidates tree root pattern rules := by
  rw [listCandidates, hg]
  exact if_pos hs

theorem listCandidates_ample {root : Path} :
    listCandidates .ample tree root pattern rules = candidates tree root pattern rules := by
  rw [listCandidates, Glob.prepare_of_prepares rfl, candidates]
  cases Glob.ofString pattern with
  | error e => rfl
  | ok glob => rfl

/-- A file is a candidate if the pattern selects it and no rule ignores it. -/
theorem mem_candidates_iff (ht : tree.Sound) (hn : parts ≠ []) (hf : tree.isFile (root ++ parts))
    (hg : Glob.ofString pattern = .ok glob)
    (h : candidates tree ⟨.root, root⟩ pattern rules = .ok found) :
    Path.toString ⟨.root, root ++ parts⟩ ∈ found ↔
      glob.selects parts ∧ rules.ignores ⟨.root, root ++ parts⟩ = false := by
  obtain ⟨paths, hp, rfl⟩ := (candidates_eq_ok hg).1 h
  have hpart : ∀ part ∈ root ++ parts, Path.IsPart part := fun part hm =>
    (ht.name_of_isThere (Tree.isThere_of_isFile hf) hm).1
  rw [← Glob.mem_files_iff ht hn hf hp, List.mem_mergeSort, List.mem_map]
  constructor
  · rintro ⟨path, hm, he⟩
    obtain ⟨hm, hi⟩ := List.mem_filter.1 hm
    -- candidates are texts, but no other path below the root is written as this one
    obtain ⟨found, hfound, rfl⟩ := List.mem_map.1 hm
    obtain rfl : found = root ++ parts := by
      simpa using (Path.toString_inj (Glob.isPart_of_mem_files ht hp hfound) hpart).1 he
    exact ⟨hfound, by simpa using hi⟩
  · rintro ⟨hm, hi⟩
    exact ⟨_, List.mem_filter.2 ⟨List.mem_map_of_mem hm, by simp [hi]⟩, rfl⟩

end

theorem Server.accepts_watch (settings : Settings) (project : Project) (path : String) :
    (watch settings project).1.accepts path =
      (decide ((Path.ofString path).extension = settings.componentExtension) &&
        !project.rules.ignores (Path.ofString path)) :=
  rfl

section
variable {tree : Tree} {here : Path} {root? : Option Path} {settings : Settings}
  {project : Project} {entries : List Log.Entry} {glob : Glob} {found parts : List String}

theorem Project.eq_of_new (h : Project.new tree here root? settings = .ok (project, entries)) :
    ∃ rules, project = ⟨here.resolve (root?.getD here), settings.componentGlob, rules,
      settings.maxReads, Session.new settings.strict settings.componentExtension []⟩ := by
  simp only [Project.new] at h
  split at h
  · cases h
  · obtain ⟨⟨rules, logged⟩, -, h⟩ := bind_eq_ok.1 h
    cases h
    exact ⟨rules, rfl⟩

theorem Project.root_of_new (h : Project.new tree here root? settings = .ok (project, entries)) :
    project.root = here.resolve (root?.getD here) := by
  obtain ⟨rules, rfl⟩ := Project.eq_of_new h
  rfl

theorem accepts_iff (ht : tree.Sound) {path : List String} (hf : tree.isFile path) :
    (Server.watch settings project).1.accepts (Path.toString ⟨.root, path⟩) ↔
      Path.extension ⟨.root, path⟩ = settings.componentExtension ∧
        project.rules.ignores ⟨.root, path⟩ = false := by
  have hpart : ∀ part ∈ path, Path.IsPart part := fun part hm =>
    (ht.name_of_isThere (Tree.isThere_of_isFile hf) hm).1
  rw [Server.accepts_watch, Path.ofString_toString hpart]
  simp

/-- Settings whose pattern is the one for their extension, which is made of one dot and ordinary
characters. -/
def Settings.Matching (s : Settings) : Prop :=
  s.componentGlob = "**/*" ++ s.componentExtension ∧
    ∃ e, s.componentExtension = String.ofList ('.' :: e) ∧ e ≠ [] ∧
      ∀ c ∈ e, Pattern.IsLiteral c ∧ c ≠ '/' ∧ c ≠ '.'

theorem Settings.matching_default : Settings.default.Matching :=
  ⟨rfl, ['v', 'u', 'e'], rfl, by simp, by simp [Pattern.IsLiteral]⟩

/-- A pattern for an extension selects the names that have it and one more, the bare extension. -/
theorem Settings.Matching.selects_iff (hs : settings.Matching)
    (read : Glob.ofString settings.componentGlob = .ok glob) (below : parts ≠ [])
    (root : List String) :
    (glob.selects parts ↔
        Path.extension ⟨.root, root ++ parts⟩ = settings.componentExtension) ↔
      Path.name ⟨.root, root ++ parts⟩ ≠ settings.componentExtension := by
  obtain ⟨hglob, e, he, hne, hplain⟩ := hs
  have hlit : ∀ c ∈ '.' :: e, Pattern.IsLiteral c ∧ c ≠ '/' := by
    refine List.forall_mem_cons.2 ⟨by simp [Pattern.IsLiteral], fun c hc => ?_⟩
    exact ⟨(hplain c hc).1, (hplain c hc).2.1⟩
  obtain rfl : Glob.ending ('.' :: e) = glob := by
    rw [hglob, Glob.ofString_ending (by simpa [he] using hlit), he] at read
    simpa using read
  obtain ⟨above, name, rfl⟩ := (List.eq_nil_or_concat' parts).resolve_left below
  have hname : Path.name ⟨.root, root ++ (above ++ [name])⟩ = name := by
    simp [Path.name, ← List.append_assoc]
  rw [Glob.selects_ending (fun c hc => (hlit c hc).1), he,
    Path.extension_eq_iff hne fun hm => (hplain _ hm).2.2 rfl, hname]
  constructor
  · rintro h rfl
    exact (h.1 (by simp)).2 rfl
  · intro hn
    exact (and_iff_left hn).symm

/-- Below the root of a project, a file is a candidate if the pattern of the settings selects it and
no rule ignores it, and of interest to the watcher if it has the extension of the settings and no
rule ignores it. So the two agree on a file just if it is ignored, or selected and of that
extension, or neither; with a pattern for the extension, on all but those whose name is the bare
extension. -/
theorem candidate_accepted_agree_iff (ht : tree.Sound)
    (made : Project.new tree here root? settings = .ok (project, entries))
    (read : Glob.ofString settings.componentGlob = .ok glob)
    (listed : candidates tree project.root settings.componentGlob project.rules = .ok found)
    (file : tree.isFile (project.root.parts ++ parts)) (below : parts ≠ []) :
    let path : Path := ⟨.root, project.root.parts ++ parts⟩
    let w := (Server.watch settings project).1
    (path.toString ∈ found ↔ glob.selects parts ∧ project.rules.ignores path = false) ∧
      (w.accepts path.toString ↔
        path.extension = settings.componentExtension ∧ project.rules.ignores path = false) ∧
      ((path.toString ∈ found ↔ w.accepts path.toString) ↔
        project.rules.ignores path ∨
          (glob.selects parts ↔ path.extension = settings.componentExtension)) ∧
      (settings.Matching → ((path.toString ∈ found ↔ w.accepts path.toString) ↔
        project.rules.ignores path ∨ path.name ≠ settings.componentExtension)) := by
  intro path w
  have hroot : project.root = ⟨.root, project.root.parts⟩ := by
    rw [Project.root_of_new made]
    rfl
  rw [hroot] at listed
  have hfound := mem_candidates_iff ht below file read listed
  have hw : w.accepts path.toString ↔ _ := accepts_iff ht file
  have hagree : (path.toString ∈ found ↔ w.accepts path.toString) ↔
      project.rules.ignores path ∨
        (glob.selects parts ↔ path.extension = settings.componentExtension) := by
    rw [hfound, hw]
    by_cases hi : project.rules.ignores path
    · simp [path, hi]
    · simp [path, hi]
  refine ⟨hfound, hw, hagree, fun hs => ?_⟩
  rw [hagree, hs.selects_iff read below project.root.parts]

end

/-- A component, a file whose name is the bare extension, and a component that the ignore file
excludes. -/
def bareTree : Tree :=
  ⟨[(["p", ".gitignore"], .file ("old/\n".toList.map fun c => c.toNat.toUInt8)),
    (["p", "src", ".vue"], .file []), (["p", "src", "App.vue"], .file []),
    (["p", "old", "Page.vue"], .file [])]⟩

def bareProject : Project :=
  ⟨⟨.root, ["p"]⟩, "**/*.vue", ⟨⟨.root, ["p"]⟩, ["old"], ["**/node_modules/**"]⟩,
    64, Session.new false ".vue" []⟩

theorem new_bareTree : Project.new bareTree ⟨.root, ["p"]⟩ none .default =
    .ok (bareProject,
      [⟨Project.logger, .info, "AnalysisSession initialized with project_root=/p"⟩]) := by
  have hr : IgnoreRules.new bareTree ⟨.root, ["p"]⟩ none Settings.default.patterns =
      .ok (bareProject.rules, []) := by
    decide +kernel
  have hp : Path.resolve ⟨.root, ["p"]⟩ ⟨.root, ["p"]⟩ = ⟨.root, ["p"]⟩ := by decide
  have hn : hasNull ⟨.root, ["p"]⟩ = false := by decide +kernel
  simp only [Project.new, Option.getD_none, hp, hn, hr]
  rfl

theorem candidates_bareTree :
    candidates bareTree ⟨.root, ["p"]⟩ "**/*.vue" bareProject.rules =
      .ok ["/p/src/.vue", "/p/src/App.vue"] := by
  have hg : Glob.ofString "**/*.vue" = .ok (Glob.ending ".vue".toList) := by decide +kernel
  refine (candidates_eq_ok hg).2 ⟨[["p", "src", ".vue"], ["p", "src", "App.vue"],
    ["p", "old", "Page.vue"]], by decide +kernel, ?_⟩
  have hf : (([["p", "src", ".vue"], ["p", "src", "App.vue"], ["p", "old", "Page.vue"]].map
      (Path.mk .root)).filter (!bareProject.rules.ignores ·)).map Path.toString =
        ["/p/src/.vue", "/p/src/App.vue"] := by
    decide +kernel
  rw [hf]
  exact List.mergeSort_of_pairwise (by decide +kernel)

/-- A candidate of which no event is heard. -/
theorem bare_extension_unheard :
    bareTree.Sound ∧ bareTree.isFile ["p", "src", ".vue"] ∧ ∃ entries found,
      Project.new bareTree ⟨.root, ["p"]⟩ none .default = .ok (bareProject, entries) ∧
      candidates bareTree bareProject.root Settings.default.componentGlob bareProject.rules =
        .ok found ∧
      "/p/src/.vue" ∈ found ∧
      (Server.watch .default bareProject).1.accepts "/p/src/.vue" = false :=
  ⟨by decide +kernel, by decide +kernel, _, _, new_bareTree, candidates_bareTree, by simp,
    by decide +kernel⟩

theorem candidate_accepted_agree_iff_bareTree :
    let found := ["/p/src/.vue", "/p/src/App.vue"]
    let w := (Server.watch .default bareProject).1
    bareTree.Sound ∧ bareTree.isFile ["p", "src", ".vue"] ∧
      bareTree.isFile ["p", "src", "App.vue"] ∧
      Glob.ofString Settings.default.componentGlob = .ok (Glob.ending ".vue".toList) ∧
      candidates bareTree bareProject.root Settings.default.componentGlob bareProject.rules =
        .ok found ∧
      ("/p/src/App.vue" ∈ found ↔ w.accepts "/p/src/App.vue") ∧
      ¬("/p/src/.vue" ∈ found ↔ w.accepts "/p/src/.vue") := by
  intro found w
  have ht : bareTree.Sound := by decide +kernel
  have hg : Glob.ofString Settings.default.componentGlob = .ok (Glob.ending ".vue".toList) := by
    decide +kernel
  have hbare : bareTree.isFile ["p", "src", ".vue"] := by decide +kernel
  have happ : bareTree.isFile ["p", "src", "App.vue"] := by decide +kernel
  have agree (parts : List String) (hf : bareTree.isFile (["p"] ++ parts)) (hn : parts ≠ []) :=
    (candidate_accepted_agree_iff ht new_bareTree hg candidates_bareTree hf hn).2.2.2
      Settings.matching_default
  refine ⟨ht, hbare, happ, hg, candidates_bareTree, ?_, fun h => ?_⟩
  · exact (agree ["src", "App.vue"] happ (by simp)).2 (.inr (by decide +kernel))
  · have := (agree ["src", ".vue"] hbare (by simp)).1 h
    revert this
    decide +kernel

end Ancestry
