import Ancestry.Proofs.Disk.Selection
import Ancestry.Proofs.Ignore.Seen

/-!
Patterns for directories. With asterisks on both sides a configured pattern stands for all that is
below a directory of its name, at any depth. A line of an ignore file that names one directory and a
slash hides all below it too. One that names nested directories is tried as a whole on whole paths
and on single components, so that it hides the innermost directory and nothing below it.
-/

namespace Ancestry.IgnoreRules
open Ancestry.Path Ancestry.Pattern
variable {rules : IgnoreRules} {x pattern : String} {parts dirs : List String}

/-! ### Everything below a directory -/

theorem nameMatches_below (hx : ∀ c ∈ x.toList, IsLiteral c) (text : String) :
    nameMatches ("**/" ++ x ++ "/**") text ↔ '/' :: (x.toList ++ ['/']) <:+: text.toList := by
  have hl : ("**/" ++ x ++ "/**").toList =
      '*' :: '*' :: ('/' :: (x.toList ++ ['/']) ++ ['*', '*']) := by
    simp
  have hs : ∀ c ∈ '/' :: (x.toList ++ ['/']), IsLiteral c := by
    simp only [List.forall_mem_cons, List.forall_mem_append]
    exact ⟨by decide, hx, by decide, by simp⟩
  rw [nameMatches, hl, matchesText_within (by simp) hs]

/-- At the root the slash in front of the name is missing, for which the asterisks are left out. -/
theorem matchesConfigured_below (hx : ∀ c ∈ x.toList, IsLiteral c) (path seen : Path) :
    matchesConfigured path seen ("**/" ++ x ++ "/**") ↔
      '/' :: (x.toList ++ ['/']) <:+: '/' :: seen.toString.toList ∨
        '/' :: (x.toList ++ ['/']) <:+: path.name.toList := by
  have hp : "**/".toList.isPrefixOf? ("**/" ++ x ++ "/**").toList =
      some (x.toList ++ ['/'] ++ ['*', '*']) := by
    rw [List.isPrefixOf?_eq_some_iff_append_eq]
    simp
  have hs : ∀ c ∈ x.toList ++ ['/'], IsLiteral c := by
    simp only [List.forall_mem_append]
    exact ⟨hx, List.forall_mem_singleton.2 (by decide)⟩
  have hr : nameMatches (String.ofList (x.toList ++ ['/'] ++ ['*', '*'])) seen.toString ↔
      x.toList ++ ['/'] <+: seen.toString.toList := by
    rw [nameMatches, String.toList_ofList, matchesText_starting hs]
  simp only [matchesConfigured, hp, Bool.or_eq_true, nameMatches_below hx, hr,
    List.infix_cons_iff, List.cons_prefix_cons, true_and]
  tauto

/-- Two asterisks on each side of a name: a path below the root is matched just if one of its
components above the last is that name. What the file itself is called does not matter, nor does a
component that has the name as a part. -/
theorem matches_below_directory_iff (rules : IgnoreRules)
    (literal : ∀ c ∈ x.toList, IsLiteral c ∧ c ≠ '/') (below : parts ≠ [])
    (proper : ∀ part ∈ parts, IsPart part) :
    let path : Path := ⟨rules.root.anchor, rules.root.parts ++ parts⟩
    matchesConfigured path (rules.seen path) ("**/" ++ x ++ "/**") ↔
      ∃ i, i + 1 < parts.length ∧ parts[i]? = some x := by
  intro path
  have hslash : ∀ part ∈ parts, '/' ∉ part.toList := fun part hm => (proper part hm).2.2
  have hname : ¬ '/' :: (x.toList ++ ['/']) <:+: path.name.toList := fun h =>
    hslash _ (name_mem rules.root below) (h.subset (by simp))
  -- with a slash in front, the start of the path is no case of its own
  rw [matchesConfigured_below (fun c hc => (literal c hc).1), seen_below, toString_relative below,
    ← slashed_eq below, infix_slashed_iff (fun hm => (literal _ hm).2 rfl) hslash,
    or_iff_left hname, List.mem_iff_getElem?]
  refine exists_congr fun i => ?_
  rw [List.getElem?_dropLast]
  by_cases hi : i + 1 < parts.length
  · rw [if_pos (by omega)]
    exact (and_iff_right hi).symm
  · rw [if_neg (by omega)]
    simp [hi]

theorem matches_below_directory_iff_vendor :
    let rules : IgnoreRules := ⟨⟨.root, ["p"]⟩, [], []⟩
    let under : Path := ⟨.root, ["p", "vendor", "ui", "Grid.vue"]⟩
    let named : Path := ⟨.root, ["p", "my-vendor", "vendor.d", "vendor"]⟩
    (∀ c ∈ "vendor".toList, IsLiteral c ∧ c ≠ '/') ∧
      (∀ part ∈ ["vendor", "ui", "Grid.vue"], IsPart part) ∧
      (∀ part ∈ ["my-vendor", "vendor.d", "vendor"], IsPart part) ∧
      matchesConfigured under (rules.seen under) "**/vendor/**" ∧
      ¬ matchesConfigured named (rules.seen named) "**/vendor/**" := by
  intro rules under named
  have hx : ∀ c ∈ "vendor".toList, IsLiteral c ∧ c ≠ '/' := by simp [IsLiteral]
  have hu : ∀ part ∈ ["vendor", "ui", "Grid.vue"], IsPart part := by decide
  have hn : ∀ part ∈ ["my-vendor", "vendor.d", "vendor"], IsPart part := by decide
  refine ⟨hx, hu, hn, ?_, fun h => ?_⟩
  · exact (matches_below_directory_iff rules hx (by simp) hu).2 ⟨0, by decide, rfl⟩
  · obtain ⟨i, hi, hv⟩ := (matches_below_directory_iff rules hx (by simp) hn).1 h
    match i, hi with
    | 0, _ => simp at hv
    | 1, _ => simp at hv

/-! ### Lines of an ignore file

What is read from a line is a pattern without the slashes at its end. -/

/-- Directories, each in the one before, that can be named on a line. -/
structure Nameable (dirs : List String) : Prop where
  nonempty : dirs ≠ []
  proper : ∀ d ∈ dirs, IsPart d
  plain : ∀ d ∈ dirs, ∀ c ∈ d.toList, IsLiteral c ∧ Text.isSpace c = false
  uncommented : ∀ d ∈ dirs.head?, d.toList.head? ≠ some '#'
  short : ("/".intercalate dirs).length < maxPattern

def directoryLine (dirs : List String) : List Char :=
  ("/".intercalate dirs).toList ++ ['/']

namespace Nameable

theorem literal (h : Nameable dirs) : ∀ c ∈ ("/".intercalate dirs).toList, IsLiteral c := by
  rw [toList_intercalate]
  refine Text.forall_mem_intercalate (List.forall_mem_singleton.2 (by decide)) fun chars hm c hc => ?_
  obtain ⟨d, hd, rfl⟩ := List.mem_map.1 hm
  exact (h.plain d hd c hc).1

/-- The first character is that of the first directory. -/
theorem head?_eq (h : Nameable dirs) : ∃ c rest, ("/".intercalate dirs).toList = c :: rest ∧
    Text.isSpace c = false ∧ c ≠ '#' := by
  obtain ⟨d, ds, rfl⟩ := List.exists_cons_of_ne_nil h.nonempty
  have hne : d.toList ≠ [] := mt String.toList_eq_nil_iff.1 (h.proper d (by simp)).1
  obtain ⟨c, s, hc⟩ := List.exists_cons_of_ne_nil hne
  have hs := slashed_eq (List.cons_ne_nil d ds)
  rw [slashed_cons, hc, List.cons_append] at hs
  refine ⟨c, s ++ slashed ds, (List.cons.inj hs).2.symm, ?_, ?_⟩
  · exact (h.plain d (by simp) c (by simp [hc])).2
  · rintro rfl
    exact h.uncommented d rfl (by simp [hc])

/-- The last character is that of the last directory. -/
theorem getLast?_ne (h : Nameable dirs) : ("/".intercalate dirs).toList.getLast? ≠ some '/' := by
  obtain ⟨above, d, rfl⟩ := (List.eq_nil_or_concat' dirs).resolve_left h.nonempty
  obtain ⟨hne, -, hslash⟩ := h.proper d (by simp)
  have hd : d.toList ≠ [] := mt String.toList_eq_nil_iff.1 hne
  have hs : '/' :: ("/".intercalate (above ++ [d])).toList = slashed above ++ ['/'] ++ d.toList := by
    rw [← slashed_eq h.nonempty]
    simp [slashed]
  intro hl
  have hm : ('/' :: ("/".intercalate (above ++ [d])).toList).getLast? = some '/' := by
    rw [List.getLast?_cons, hl, Option.getD_some]
  rw [hs, List.getLast?_append_of_ne_nil _ hd] at hm
  exact hslash (List.mem_of_getLast? hm)

theorem patternOf_directoryLine (h : Nameable dirs) :
    patternOf (directoryLine dirs) = ("/".intercalate dirs).toList := by
  have hn : directoryLine dirs ≠ ['/'] := by
    obtain ⟨c, rest, hc, -⟩ := h.head?_eq
    simp [directoryLine, hc]
  have hl : ∀ c ∈ ("/".intercalate dirs).toList.reverse.head?, decide (c = '/') = false := by
    intro c hc
    rw [List.head?_reverse] at hc
    exact decide_eq_false fun he => h.getLast?_ne (he ▸ hc)
  rw [patternOf, if_neg hn, dropTrailingSlashes, directoryLine, List.reverse_append,
    List.reverse_singleton, List.singleton_append, List.dropWhile_cons_of_pos (by simp),
    Text.dropWhile_eq_self hl, List.reverse_reverse]

theorem readLine_directoryLine (h : Nameable dirs) (number : Nat) :
    readLine number (directoryLine dirs) = some (.ok ("/".intercalate dirs)) := by
  obtain ⟨c, rest, hc, hspace, hmark⟩ := h.head?_eq
  have ht : Text.trim (directoryLine dirs) = directoryLine dirs := by
    have hb := Text.trim_between (b := '/') hspace (by decide) rest
    rwa [← List.cons_append, ← hc] at hb
  have hlong : ¬ maxPattern < (directoryLine dirs).length := by
    have hs := h.short
    simp only [directoryLine, List.length_append, String.length_toList, List.length_singleton]
    omega
  have hhead : (directoryLine dirs).head? = some c := by simp [directoryLine, hc]
  have hne : directoryLine dirs ≠ [] := by simp [directoryLine]
  simp only [readLine, ht, hne, hhead, Option.some.injEq, hmark, decide_false, Bool.or_self,
    Bool.false_eq_true, if_false, hlong, h.patternOf_directoryLine, String.ofList_toList]

end Nameable

theorem mem_readLines {lines : List (List Char)} {line : List Char} (hl : line ∈ lines)
    (hr : ∀ number, readLine number line = some (.ok pattern)) : pattern ∈ (readLines lines).1 := by
  obtain ⟨i, hi⟩ := List.mem_iff_getElem?.1 hl
  have hz : (line, 1 + i) ∈ lines.zipIdx 1 := List.mem_zipIdx_iff_le_and_getElem?_sub.2 (by simp [hi])
  refine List.mem_eraseDups.2 (List.mem_filterMap.2 ⟨.ok pattern, ?_, rfl⟩)
  exact List.mem_filterMap.2 ⟨(line, 1 + i), hz, hr _⟩

/-- The lines that can be read of bytes: those before a fault, if there is one. -/
def linesOf (bytes : List UInt8) : List (List Char) :=
  let decoded := Text.Utf8.read bytes
  match decoded.error? with
  | none => Text.lines (Text.normalizeBreaks decoded.text)
  | some _ => completeLines (Text.normalizeBreaks decoded.text)

theorem readBytes_fst (bytes : List UInt8) : (readBytes bytes).1 = (readLines (linesOf bytes)).1 := by
  simp only [readBytes, linesOf]
  cases (Text.Utf8.read bytes).error? <;> rfl

/-- The lines of an ignore file, of which there are none if it cannot be read. -/
def linesAt (tree : Disk.Tree) (file : Path) : List (List Char) :=
  match tree.find? ⟨.root, []⟩ file with
  | .ok (some place) =>
    match tree.bytes place with
    | .ok bytes => linesOf bytes
    | .error _ => []
  | _ => []

/-- Where the ignore file of a root is. -/
def fileOf (root : Path) (file? : Option Path) : Path :=
  file?.getD ⟨root.anchor, root.parts ++ [".gitignore"]⟩

section
variable {tree : Disk.Tree} {root file : Path} {file? : Option Path} {configured : List String}
  {entries : List Log.Entry}

theorem listed_of_load {patterns : List String} (h : load tree file = .ok (patterns, entries)) :
    patterns = (readLines (linesAt tree file)).1 := by
  rw [load] at h
  obtain ⟨place?, hf, h⟩ := Disk.bind_eq_ok.1 h
  rw [linesAt, hf]
  cases place? with
  | none =>
    cases h
    rfl
  | some place =>
    cases hb : tree.bytes place with
    | error fault =>
      simp only [hb] at h ⊢
      cases h
      rfl
    | ok bytes =>
      simp only [hb] at h ⊢
      rw [← readBytes_fst, Except.ok.inj h]

theorem listed_of_new (h : new tree root file? configured = .ok (rules, entries)) :
    rules.root = root ∧ rules.listed = (readLines (linesAt tree (fileOf root file?))).1 := by
  obtain ⟨⟨listed, logged⟩, hl, h⟩ := Disk.bind_eq_ok.1 h
  cases h
  exact ⟨rfl, listed_of_load hl⟩

end

/-- The rules without a pattern of the ignore file. -/
def without (pattern : String) (rules : IgnoreRules) : IgnoreRules :=
  { rules with listed := rules.listed.filter (· ≠ pattern) }

theorem ignores_iff_without (h : pattern ∈ rules.listed) (path : Path) :
    rules.ignores path ↔
      matchesListed path (rules.seen path) pattern ∨ (rules.without pattern).ignores path := by
  have hs : (rules.without pattern).seen path = rules.seen path := rfl
  have hc : (rules.without pattern).configured = rules.configured := rfl
  simp only [ignores, hs, hc, Bool.or_eq_true, ← or_assoc]
  refine or_congr_left ?_
  simp only [List.any_append, Bool.or_eq_true, List.any_eq_true, without, List.mem_filter,
    decide_eq_true_eq]
  constructor
  · rintro (ha | ⟨p, hp, hm⟩)
    · exact .inr (.inl ha)
    · by_cases he : p = pattern
      · exact .inl (he ▸ hm)
      · exact .inr (.inr ⟨p, ⟨hp, he⟩, hm⟩)
  · rintro (hm | ha | ⟨p, ⟨hp, -⟩, hm⟩)
    · exact .inr ⟨pattern, h, hm⟩
    · exact .inl ha
    · exact .inr ⟨p, hp, hm⟩

theorem matchesListed_literal (h : ∀ c ∈ pattern.toList, IsLiteral c) (path seen : Path) :
    matchesListed path seen pattern ↔
      seen.toString = pattern ∨ path.name = pattern ∨ pattern ∈ seen.allParts := by
  simp only [matchesListed, Bool.or_eq_true, List.any_eq_true, nameMatches_literal h,
    exists_eq_right, or_assoc]

theorem Nameable.eq_part_iff (h : Nameable dirs) {d : String} (hd : IsPart d) :
    "/".intercalate dirs = d ↔ dirs = [d] := by
  have ht : Path.toString ⟨.relative, [d]⟩ = d := by simp [toString_relative]
  have hi := toString_inj (p := ⟨.relative, dirs⟩) (q := ⟨.relative, [d]⟩) h.proper (by simpa using hd)
  simpa [toString_relative h.nonempty, ht] using hi

/-- A single name is tried on each component. A text with slashes can only be a whole path. -/
theorem matchesListed_directories (h : Nameable dirs) (rules : IgnoreRules) (below : parts ≠ [])
    (proper : ∀ part ∈ parts, IsPart part) :
    let path : Path := ⟨rules.root.anchor, rules.root.parts ++ parts⟩
    matchesListed path (rules.seen path) ("/".intercalate dirs) ↔
      (∃ d ∈ parts, dirs = [d]) ∨ dirs = parts := by
  intro path
  have hpart : ∀ d ∈ parts, ("/".intercalate dirs = d ↔ dirs = [d]) := fun d hd =>
    h.eq_part_iff (proper d hd)
  have hwhole : Path.toString ⟨.relative, parts⟩ = "/".intercalate dirs ↔ dirs = parts := by
    rw [← toString_relative h.nonempty, toString_inj proper h.proper]
    simp [eq_comm]
  rw [matchesListed_literal h.literal, seen_below, hwhole]
  have hname : path.name ∈ parts := name_mem rules.root below
  constructor
  · rintro (hd | hd | hd)
    · exact .inr hd
    · exact .inl ⟨_, hname, (hpart _ hname).1 hd.symm⟩
    · exact .inl ⟨_, hd, (hpart _ hd).1 rfl⟩
  · rintro (⟨d, hd, he⟩ | hd)
    · rw [(hpart d hd).2 he]
      exact .inr (.inr hd)
    · exact .inl hd

/-- Patterns that are listed for directories, whatever the other rules are. -/
theorem ignores_directories_iff (h : Nameable dirs) (hl : "/".intercalate dirs ∈ rules.listed)
    (below : parts ≠ []) (proper : ∀ part ∈ parts, IsPart part) :
    let path : Path := ⟨rules.root.anchor, rules.root.parts ++ parts⟩
    rules.ignores path ↔ (∃ d ∈ parts, dirs = [d]) ∨ dirs = parts ∨
      (rules.without ("/".intercalate dirs)).ignores path := by
  intro path
  rw [ignores_iff_without hl, ← or_assoc]
  exact or_congr_left (matchesListed_directories h rules below proper)

/-- What a line for directories, each in the one before, does to the paths below the root. A single
name hides every path that has it as a component; several names hide the path that they make up, and
no other. So a line for one directory hides all below it, and a line for nested ones adds nothing to
what the other rules hide below them. -/
theorem directory_line_hides_iff {tree : Disk.Tree} {root : Path} {file? : Option Path}
    {configured : List String} {entries : List Log.Entry}
    (made : new tree root file? configured = .ok (rules, entries)) (nameable : Nameable dirs)
    (listed : directoryLine dirs ∈ linesAt tree (fileOf root file?)) :
    let others := rules.without ("/".intercalate dirs)
    (∀ parts : List String, parts ≠ [] → (∀ part ∈ parts, IsPart part) →
      let path : Path := ⟨root.anchor, root.parts ++ parts⟩
      (rules.ignores path ↔ (∃ d ∈ parts, dirs = [d]) ∨ dirs = parts ∨ others.ignores path)) ∧
    ∀ rest : List String, rest ≠ [] → (∀ part ∈ rest, IsPart part) →
      let path : Path := ⟨root.anchor, root.parts ++ (dirs ++ rest)⟩
      (rules.ignores path ↔ dirs.length = 1 ∨ others.ignores path) := by
  intro others
  obtain ⟨rfl, hlisted⟩ := listed_of_new made
  have hmem : "/".intercalate dirs ∈ rules.listed := by
    rw [hlisted]
    exact mem_readLines listed nameable.readLine_directoryLine
  refine ⟨fun parts hn hp => ignores_directories_iff nameable hmem hn hp, fun rest hr hp => ?_⟩
  have hall : ∀ part ∈ dirs ++ rest, IsPart part := by
    simpa only [List.forall_mem_append] using ⟨nameable.proper, hp⟩
  have hone : (∃ d ∈ dirs ++ rest, dirs = [d]) ↔ dirs.length = 1 := by
    rw [List.length_eq_one_iff]
    exact ⟨fun ⟨d, _, hd⟩ => ⟨d, hd⟩, fun ⟨d, hd⟩ => ⟨d, by simp [hd], hd⟩⟩
  have hlonger : dirs ≠ dirs ++ rest := by simpa using hr
  refine (ignores_directories_iff nameable hmem (by simp [hr]) hall).trans ?_
  rw [hone, or_iff_right hlonger]

/-- A project whose ignore file names one directory, and one in another. -/
def ignoringTree : Disk.Tree :=
  ⟨[(["p", ".gitignore"], .file ("gen/\nsrc/old/\n".toList.map fun c => c.toNat.toUInt8)),
    (["p", "gen", "Icons.vue"], .file []), (["p", "src", "old", "Page.vue"], .file [])]⟩

def ignoringRules : IgnoreRules :=
  ⟨⟨.root, ["p"]⟩, ["gen", "src/old"], ["**/node_modules/**"]⟩

theorem new_ignoringTree : new ignoringTree ⟨.root, ["p"]⟩ none ["**/node_modules/**"] =
    .ok (ignoringRules, []) := by
  decide +kernel

theorem linesAt_ignoringTree : linesAt ignoringTree (fileOf ⟨.root, ["p"]⟩ none) =
    [directoryLine ["gen"], directoryLine ["src", "old"]] := by
  decide +kernel

theorem nameable_gen : Nameable ["gen"] :=
  ⟨by simp, by decide, by simp [IsLiteral, Text.isSpace], by simp, by decide⟩

theorem nameable_srcOld : Nameable ["src", "old"] :=
  ⟨by simp, by decide, by simp [IsLiteral, Text.isSpace], by simp, by decide⟩

/-- A file below nested directories that the ignore file names is not ignored. -/
theorem nested_directory_not_hidden :
    Nameable ["src", "old"] ∧
      directoryLine ["src", "old"] ∈ linesAt ignoringTree (fileOf ⟨.root, ["p"]⟩ none) ∧
      ∃ rules entries, new ignoringTree ⟨.root, ["p"]⟩ none ["**/node_modules/**"] =
          .ok (rules, entries) ∧
        rules.ignores ⟨.root, ["p"] ++ (["src", "old"] ++ ["Page.vue"])⟩ = false :=
  ⟨nameable_srcOld, by simp [linesAt_ignoringTree], _, _, new_ignoringTree, by decide +kernel⟩

theorem directory_line_hides_iff_levels :
    directoryLine ["gen"] ∈ linesAt ignoringTree (fileOf ⟨.root, ["p"]⟩ none) ∧
      directoryLine ["src", "old"] ∈ linesAt ignoringTree (fileOf ⟨.root, ["p"]⟩ none) ∧
      ignoringRules.ignores ⟨.root, ["p", "gen", "Icons.vue"]⟩ ∧
      ignoringRules.ignores ⟨.root, ["p", "src", "old"]⟩ ∧
      ¬ ignoringRules.ignores ⟨.root, ["p", "src", "old", "Page.vue"]⟩ := by
  have hg : directoryLine ["gen"] ∈ linesAt ignoringTree (fileOf ⟨.root, ["p"]⟩ none) := by
    simp [linesAt_ignoringTree]
  have ho : directoryLine ["src", "old"] ∈ linesAt ignoringTree (fileOf ⟨.root, ["p"]⟩ none) := by
    simp [linesAt_ignoringTree]
  have hgen := directory_line_hides_iff new_ignoringTree nameable_gen hg
  have hold := directory_line_hides_iff new_ignoringTree nameable_srcOld ho
  refine ⟨hg, ho, ?_, ?_, fun h => ?_⟩
  · exact (hgen.2 ["Icons.vue"] (by simp) (by decide)).2 (.inl rfl)
  · exact (hold.1 ["src", "old"] (by simp) (by decide)).2 (.inr (.inl rfl))
  · have hn := (hold.2 ["Page.vue"] (by simp) (by decide)).1 h
    revert hn
    decide +kernel

end Ancestry.IgnoreRules
