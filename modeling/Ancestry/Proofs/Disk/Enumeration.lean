import Ancestry.Proofs.Disk.Room
import Ancestry.Proofs.Watcher.Agreement
import Mathlib.Data.List.Nodup

/-!
The candidates of a project, listed. A path pattern without double dots finds places below the root
only, so that the list holds the files that it selects and no rule ignores, each one once and in
order. With the pattern for an extension these are the files whose names end in it.
-/

namespace Ancestry
open Ancestry.Disk

section
variable {α ε : Type} {l : List α}

theorem nodup_eraseDups [BEq α] [LawfulBEq α] (l : List α) : l.eraseDups.Nodup := by
  cases l with
  | nil => simp
  | cons a l =>
    rw [List.eraseDups_cons, List.nodup_cons, List.mem_eraseDups]
    exact ⟨by simp, nodup_eraseDups _⟩
termination_by l.length
decreasing_by exact Nat.lt_succ_of_le (List.length_filter_le _ _)

theorem exists_sublist_of_filterAuxM {test : α → Except ε Bool} {kept out : List α}
    (h : l.filterAuxM test kept = .ok out) :
    ∃ picked : List α, picked.Sublist l ∧ out = picked.reverse ++ kept := by
  induction l generalizing kept with
  | nil =>
    cases h
    exact ⟨[], .slnil, rfl⟩
  | cons a l ih =>
    rw [List.filterAuxM] at h
    obtain ⟨hit, -, h⟩ := bind_eq_ok.1 h
    obtain ⟨picked, hp, rfl⟩ := ih h
    cases hit with
    | true => exact ⟨a :: picked, hp.cons_cons a, by simp⟩
    | false => exact ⟨picked, hp.cons a, rfl⟩

theorem sublist_of_filterM {test : α → Except ε Bool} {out : List α}
    (h : l.filterM test = .ok out) : out.Sublist l := by
  obtain ⟨kept, hk, h⟩ := bind_eq_ok.1 h
  cases h
  obtain ⟨picked, hp, rfl⟩ := exists_sublist_of_filterAuxM hk
  simpa using hp

end

/-- Different texts are put into strictly ascending order. -/
theorem pairwise_lt_mergeSort {texts : List String} (h : texts.Nodup) :
    texts.mergeSort.Pairwise (· < ·) := by
  have hle : texts.mergeSort.Pairwise fun a b => decide (a ≤ b) :=
    List.pairwise_mergeSort (by simpa using fun _ _ _ => String.le_trans)
      (by simpa using String.le_total) texts
  have hne : texts.mergeSort.Pairwise (· ≠ ·) := List.nodup_mergeSort.2 h
  refine (hle.and hne).imp fun {a b} hab => String.not_le.1 fun hba => hab.2 ?_
  exact String.le_antisymm (of_decide_eq_true hab.1) hba

namespace Disk.Glob
variable {t : Tree} {only : Bool} {s : Selector} {selectors rest : List Selector}
  {here first path root : List String} {out : List (List String)} {glob : Glob}

/-- A step from where something is leads to where something is, unless it leads up. -/
theorem Leads.isThere (ht : t.Sound) (hh : t.isThere here) (hs : s ≠ .name "..")
    (h : Leads t only rest here s first) : t.isThere (here ++ first) := by
  cases h with
  | @name name place found ends =>
    obtain ⟨-, -, hw, hp⟩ := lookUp_eq_some_iff.1 found
    have hd : ".." ∉ here ++ [name] := by
      simpa [ht.dots_of_isThere hh, eq_comm] using hs
    obtain rfl : place = here ++ [name] := by simpa using Tree.walk_eq hd hw
    exact hp
  | pattern found listed fits ends =>
    cases ht.lookUp_eq hh found
    exact Tree.isThere_of_mem_names listed
  | anyDirectories found below eq =>
    cases ht.lookUp_eq hh found
    obtain ⟨-, ⟨more, rfl⟩, hd⟩ := Tree.mem_directoriesBelow.1 below
    rw [eq, List.drop_left]
    exact Tree.isThere_of_isDirectory hd

theorem isThere_of_mem_follow (ht : t.Sound) (hh : t.isThere here)
    (hs : Selector.name ".." ∉ selectors) (h : follow t only selectors here = .ok out)
    (hm : path ∈ out) : t.isThere path ∧ here <+: path := by
  induction selectors generalizing here out with
  | nil =>
    cases h
    obtain rfl : path = here := by simpa using hm
    exact ⟨hh, List.prefix_rfl⟩
  | cons s rest ih =>
    rw [List.mem_cons, not_or] at hs
    obtain ⟨first, found, hl, hr, hm⟩ := (follow_cons h).origin path hm
    obtain ⟨hp, hbelow⟩ := ih (hl.isThere ht hh (Ne.symm hs.1)) hs.2 hr hm
    exact ⟨hp, (List.prefix_append here first).trans hbelow⟩

/-- What a path pattern without double dots finds are files below the root. -/
theorem isFile_of_mem_files (ht : t.Sound) (hd : t.isDirectory root)
    (hs : Selector.name ".." ∉ glob.selectors) (h : glob.files t root = .ok out)
    (hm : path ∈ out) : t.isFile path ∧ root <+: path := by
  obtain ⟨place?, -, h⟩ := files_cases h
  split at h
  · obtain ⟨paths, hp, hout⟩ := h
    obtain ⟨hm, htest⟩ := ((mem_of_filterM hout).2 path).1 hm
    obtain ⟨hthere, hbelow⟩ :=
      isThere_of_mem_follow ht (Tree.isThere_of_isDirectory hd) hs hp hm
    obtain ⟨place?, hl, htest⟩ := bind_eq_ok.1 htest
    cases ht.lookUp_eq hthere hl
    exact ⟨by simpa [pure, Except.pure] using htest, hbelow⟩
  · simp [h] at hm

/-- Behind two asterisks nothing is found twice. -/
theorem nodup_follow_anyDirectories
    (h : follow t only (.anyDirectories :: rest) here = .ok out) : out.Nodup := by
  rw [follow] at h
  obtain ⟨place?, -, h⟩ := bind_eq_ok.1 h
  cases place? with
  | none =>
    cases h
    exact List.nodup_nil
  | some place =>
    obtain ⟨founds, -, h⟩ := bind_eq_ok.1 h
    cases h
    exact nodup_eraseDups _

theorem nodup_files (hs : glob.selectors.head? = some .anyDirectories)
    (h : glob.files t root = .ok out) : out.Nodup := by
  obtain ⟨place?, -, h⟩ := files_cases h
  split at h
  · obtain ⟨paths, hp, hout⟩ := h
    obtain ⟨rest, hrest⟩ := List.head?_eq_some_iff.1 hs
    rw [hrest] at hp
    exact (sublist_of_filterM hout).nodup (nodup_follow_anyDirectories hp)
  · simp [h]

end Disk.Glob

section
variable {tree : Tree} {root : List String} {pattern path : String} {rules : IgnoreRules}
  {glob : Glob} {found : List String}

/-- Below the root of a project, the candidates are the files that the pattern selects and no rule
ignores. -/
theorem mem_candidates (ht : tree.Sound) (hd : tree.isDirectory root)
    (hg : Glob.ofString pattern = .ok glob) (hs : Selector.name ".." ∉ glob.selectors)
    (h : candidates tree ⟨.root, root⟩ pattern rules = .ok found) :
    path ∈ found ↔ ∃ parts, path = Path.toString ⟨.root, root ++ parts⟩ ∧
      tree.isFile (root ++ parts) ∧ glob.selects parts ∧
      rules.ignores ⟨.root, root ++ parts⟩ = false := by
  have below {parts : List String} (hf : tree.isFile (root ++ parts)) : parts ≠ [] := by
    rintro rfl
    rw [List.append_nil] at hf
    simp [ht.isDirectory_eq_false hf] at hd
  constructor
  · intro hm
    obtain ⟨paths, hp, rfl⟩ := (candidates_eq_ok hg).1 h
    obtain ⟨_, hin, rfl⟩ := List.mem_map.1 (List.mem_mergeSort.1 hm)
    obtain ⟨place, hplace, rfl⟩ := List.mem_map.1 (List.mem_filter.1 hin).1
    obtain ⟨hf, parts, rfl⟩ := Glob.isFile_of_mem_files ht hd hs hp hplace
    exact ⟨parts, rfl, hf, (mem_candidates_iff ht (below hf) hf hg h).1 hm⟩
  · rintro ⟨parts, rfl, hf, hsel⟩
    exact (mem_candidates_iff ht (below hf) hf hg h).2 hsel

/-- A pattern that starts with two asterisks lists no candidate twice. -/
theorem pairwise_candidates (ht : tree.Sound) (hg : Glob.ofString pattern = .ok glob)
    (hs : glob.selectors.head? = some .anyDirectories)
    (h : candidates tree ⟨.root, root⟩ pattern rules = .ok found) :
    found.Pairwise (· < ·) := by
  obtain ⟨paths, hp, rfl⟩ := (candidates_eq_ok hg).1 h
  have hpaths := Glob.nodup_files hs hp
  have hfound : ((paths.map (Path.mk .root)).filter (!rules.ignores ·)).Nodup :=
    (hpaths.map fun _ _ he => (Path.mk.inj he).2).filter _
  have hproper : ∀ p ∈ (paths.map (Path.mk .root)).filter (!rules.ignores ·),
      ∀ part ∈ p.parts, Path.IsPart part := by
    intro p hm
    obtain ⟨path, hpath, rfl⟩ := List.mem_map.1 (List.mem_filter.1 hm).1
    exact Glob.isPart_of_mem_files ht hp hpath
  -- different paths of proper components are written differently
  refine pairwise_lt_mergeSort (List.Nodup.map_on (fun p hp q hq he => ?_) hfound)
  exact (Path.toString_inj (hproper p hp) (hproper q hq)).1 he

/-- Where the names in it leave the paths short enough, a pattern gives a list. -/
theorem exists_candidates (ht : tree.Sound) (hd : tree.isDirectory root)
    (hg : Glob.ofString pattern = .ok glob) (hr : tree.Room (Glob.roomFor glob.selectors))
    (hn : ∀ name, .name name ∈ glob.selectors → name.utf8ByteSize ≤ maxName) :
    ∃ found, candidates tree ⟨.root, root⟩ pattern rules = .ok found := by
  obtain ⟨paths, hp⟩ := Glob.exists_files ht hr hn hd
  exact ⟨_, (candidates_eq_ok hg).2 ⟨paths, hp, rfl⟩⟩

end

/-- The default pattern lists the files below the root, at any depth, whose names end as those of
components do and which no rule ignores: these and no others, in strictly ascending order. It gives
a list wherever no path of the tree is too long to be used. -/
theorem default_candidates_iff {tree : Tree} {root : List String} (rules : IgnoreRules)
    (sound : tree.Sound) (directory : tree.isDirectory root) :
    (tree.Room 0 → ∃ found, candidates tree ⟨.root, root⟩ "**/*.vue" rules = .ok found) ∧
      ∀ found, candidates tree ⟨.root, root⟩ "**/*.vue" rules = .ok found →
        found.Pairwise (· < ·) ∧
        ∀ path, path ∈ found ↔ ∃ above name,
          path = Path.toString ⟨.root, root ++ above ++ [name]⟩ ∧
          tree.isFile (root ++ above ++ [name]) ∧ ".vue".toList <:+ name.toList ∧
          rules.ignores ⟨.root, root ++ above ++ [name]⟩ = false := by
  have hlit : ∀ c ∈ ".vue".toList, Pattern.IsLiteral c ∧ c ≠ '/' := by
    simp [Pattern.IsLiteral]
  have hg : Glob.ofString "**/*.vue" = .ok (Glob.ending ".vue".toList) := by decide +kernel
  have hroom : Glob.roomFor (Glob.ending ".vue".toList).selectors = 0 := by
    simp [Glob.roomFor, Glob.ending, Selector.room]
  refine ⟨fun hr => exists_candidates sound directory hg (by rwa [hroom]) (by simp [Glob.ending]),
    fun found h => ⟨pairwise_candidates sound hg rfl h, fun path => ?_⟩⟩
  rw [mem_candidates sound directory hg (by simp [Glob.ending]) h]
  have hsel := Glob.selects_ending fun c hc => (hlit c hc).1
  constructor
  · rintro ⟨parts, rfl, hf, hs, hi⟩
    -- a file is no directory, so it has a name below the root
    rcases List.eq_nil_or_concat' parts with rfl | ⟨above, name, rfl⟩
    · rw [List.append_nil] at hf
      simp [sound.isDirectory_eq_false hf] at directory
    · rw [← List.append_assoc] at hf hi ⊢
      exact ⟨above, name, rfl, hf, (hsel above name).1 hs, hi⟩
  · rintro ⟨above, name, rfl, hf, hs, hi⟩
    rw [List.append_assoc] at hf hi ⊢
    exact ⟨above ++ [name], rfl, hf, (hsel above name).2 hs, hi⟩

/-- Components at the root, in hidden directories and below a directory that is named like one. -/
def nestedTree : Tree :=
  ⟨[(["p", "B.vue"], .file []), (["p", ".hidden", "deep", "A.vue"], .file []),
    (["p", "x.vue", ".vue"], .file []), (["p", "x.vue", "notes.txt"], .file []),
    (["p", "dist", "C.vue"], .file []), (["p", "empty.vue"], .directory),
    (["other.vue"], .file [])]⟩

theorem candidates_nestedTree :
    candidates nestedTree ⟨.root, ["p"]⟩ "**/*.vue" ⟨⟨.root, ["p"]⟩, [], []⟩ =
      .ok ["/p/.hidden/deep/A.vue", "/p/B.vue", "/p/x.vue/.vue"] := by
  have hg : Glob.ofString "**/*.vue" = .ok (Glob.ending ".vue".toList) := by decide +kernel
  have hp : (Glob.ending ".vue".toList).files nestedTree ["p"] =
      .ok [["p", "B.vue"], ["p", ".hidden", "deep", "A.vue"], ["p", "x.vue", ".vue"],
        ["p", "dist", "C.vue"]] := by
    decide +kernel
  have hf : (([["p", "B.vue"], ["p", ".hidden", "deep", "A.vue"], ["p", "x.vue", ".vue"],
      ["p", "dist", "C.vue"]].map (Path.mk .root)).filter
        (!IgnoreRules.ignores ⟨⟨.root, ["p"]⟩, [], []⟩ ·)).map Path.toString =
      ["/p/B.vue", "/p/.hidden/deep/A.vue", "/p/x.vue/.vue"] := by
    decide +kernel
  refine (candidates_eq_ok hg).2 ⟨_, hp, ?_⟩
  rw [hf]
  simp [List.mergeSort, List.MergeSort.Internal.splitInTwo]

theorem default_candidates_iff_nested :
    let rules : IgnoreRules := ⟨⟨.root, ["p"]⟩, [], []⟩
    let found := ["/p/.hidden/deep/A.vue", "/p/B.vue", "/p/x.vue/.vue"]
    nestedTree.Sound ∧ nestedTree.Room 0 ∧ nestedTree.isDirectory ["p"] ∧
      candidates nestedTree ⟨.root, ["p"]⟩ "**/*.vue" rules = .ok found ∧
      found.Pairwise (· < ·) ∧
      ∀ path, path ∈ found ↔ ∃ above name,
        path = Path.toString ⟨.root, ["p"] ++ above ++ [name]⟩ ∧
        nestedTree.isFile (["p"] ++ above ++ [name]) ∧ ".vue".toList <:+ name.toList ∧
        rules.ignores ⟨.root, ["p"] ++ above ++ [name]⟩ = false := by
  intro rules found
  have ht : nestedTree.Sound := by decide +kernel
  have hr : nestedTree.Room 0 := by decide +kernel
  have hd : nestedTree.isDirectory ["p"] := by decide +kernel
  obtain ⟨hlists, hexact⟩ := default_candidates_iff rules ht hd
  obtain ⟨listed, h⟩ := hlists hr
  cases candidates_nestedTree.symm.trans h
  exact ⟨ht, hr, hd, h, hexact found h⟩

end Ancestry
