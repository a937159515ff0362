import Ancestry.Disk.Glob
import Ancestry.Proofs.Path.Reading

/-!
What is there in a tree of files: everything above a file is a directory, and a path without double
dots leads to itself.
-/

namespace Ancestry.Disk

/-- Trees as a disk can hold them: items have names that can be written, and a file is no directory,
so that nothing is below it. -/
structure Tree.Sound (t : Tree) : Prop where
  named : ∀ e ∈ t.items, ∀ name ∈ e.1, Path.IsPart name ∧ name ≠ ".." ∧ isName name
  leaf : ∀ e ∈ t.items, t.isFile e.1 → t.isDirectory e.1 = false

instance (t : Tree) : Decidable t.Sound :=
  decidable_of_iff
    ((∀ e ∈ t.items, ∀ name ∈ e.1, Path.IsPart name ∧ name ≠ ".." ∧ isName name) ∧
      ∀ e ∈ t.items, t.isFile e.1 → t.isDirectory e.1 = false)
    ⟨fun h => ⟨h.1, h.2⟩, fun h => ⟨h.named, h.leaf⟩⟩

namespace Tree
variable {t : Tree} {path here rest place : List String}

theorem isDirectory_iff : t.isDirectory path ↔
    path = [] ∨ ∃ e ∈ t.items, e.1 = path ∧ e.2 = .directory ∨
      path <+: e.1 ∧ path.length < e.1.length := by
  simp [isDirectory, List.isPrefixOf_iff_prefix]

theorem exists_item_of_isFile (h : t.isFile path) : ∃ e ∈ t.items, e.1 = path := by
  unfold isFile item? at h
  split at h
  · rename_i bytes hl
    obtain ⟨l₁, l₂, hi, -⟩ := List.lookup_eq_some_iff.1 hl
    exact ⟨(path, .file bytes), by simp [hi], rfl⟩
  · simp at h

/-- Something that is there is listed, or above something that is. -/
theorem exists_item_of_isThere (h : t.isThere path) (hn : path ≠ []) :
    ∃ e ∈ t.items, path <+: e.1 := by
  rcases Bool.or_eq_true_iff.1 h with hf | hd
  · obtain ⟨e, he, rfl⟩ := exists_item_of_isFile hf
    exact ⟨e, he, List.prefix_rfl⟩
  · obtain rfl | ⟨e, he, ⟨rfl, -⟩ | ⟨hp, -⟩⟩ := isDirectory_iff.1 hd
    · exact absurd rfl hn
    · exact ⟨e, he, List.prefix_rfl⟩
    · exact ⟨e, he, hp⟩

theorem isDirectory_of_append (h : t.isThere (path ++ rest)) (hr : rest ≠ []) :
    t.isDirectory path := by
  obtain ⟨e, he, below, hb⟩ := exists_item_of_isThere h (by simp [hr])
  refine isDirectory_iff.2 (.inr ⟨e, he, .inr ⟨⟨rest ++ below, by simp [← hb]⟩, ?_⟩⟩)
  have := List.length_pos_iff.2 hr
  rw [← hb]
  simp only [List.length_append]
  omega

theorem isThere_of_append (h : t.isThere (path ++ rest)) : t.isThere path := by
  by_cases hr : rest = []
  · simpa [hr] using h
  · exact Bool.or_eq_true_iff.2 (.inr (isDirectory_of_append h hr))

theorem isThere_of_isFile (h : t.isFile path) : t.isThere path :=
  Bool.or_eq_true_iff.2 (.inl h)

theorem mem_names {name : String} :
    name ∈ t.names here ↔ ∃ e ∈ t.items, here ++ [name] <+: e.1 := by
  simp only [names, List.mem_eraseDups, List.mem_filterMap, Option.bind_eq_some_iff,
    List.isPrefixOf?_eq_some_iff_append_eq]
  refine exists_congr fun e => and_congr_right fun _ => ⟨?_, ?_⟩
  · rintro ⟨below, hb, hh⟩
    obtain ⟨below, rfl⟩ := List.head?_eq_some_iff.1 hh
    exact ⟨below, by simpa using hb⟩
  · rintro ⟨below, hb⟩
    exact ⟨name :: below, by simpa using hb, rfl⟩

theorem mem_directoriesBelow {d : List String} : d ∈ t.directoriesBelow path ↔
    (∃ e ∈ t.items, d <+: e.1) ∧ path <+: d ∧ t.isDirectory d := by
  simp only [directoriesBelow, List.mem_filter, List.mem_eraseDups, List.mem_flatMap,
    List.mem_map, List.mem_range, Bool.and_eq_true, List.isPrefixOf_iff_prefix]
  refine and_congr_left fun _ => exists_congr fun e => and_congr_right fun _ => ⟨?_, fun h => ?_⟩
  · rintro ⟨n, -, rfl⟩
    exact List.take_prefix n e.1
  · exact ⟨d.length, Nat.lt_succ_of_le h.length_le, (List.prefix_iff_eq_take.1 h).symm⟩

theorem walk_cons (part : String) : t.walk here (part :: rest) = .ok place ↔
    t.isDirectory here ∧ part.utf8ByteSize ≤ maxName ∧
      t.walk (if part = ".." then here.dropLast else here ++ [part]) rest = .ok place := by
  rw [walk]
  by_cases hd : t.isDirectory here
  · by_cases hl : maxName < part.utf8ByteSize
    · simp [hd, hl, Nat.not_le_of_lt hl]
    · simp [hd, hl, Nat.le_of_not_lt hl]
  · simp [hd]

/-- A path that leads somewhere starts where something is. -/
theorem isThere_of_walk (h : t.walk here rest = .ok place) (hp : t.isThere place) :
    t.isThere here := by
  cases rest with
  | nil =>
    cases h
    exact hp
  | cons part rest => exact Bool.or_eq_true_iff.2 (.inr ((walk_cons part).1 h).1)

/-- Without double dots a path that leads somewhere leads to itself. -/
theorem walk_eq (hd : ".." ∉ rest) (h : t.walk here rest = .ok place) : place = here ++ rest := by
  induction rest generalizing here with
  | nil =>
    cases h
    simp
  | cons part rest ih =>
    rw [List.mem_cons, not_or] at hd
    have h := ((walk_cons part).1 h).2.2
    rw [if_neg (Ne.symm hd.1)] at h
    simpa using ih hd.2 h

/-- Only a name that is too long keeps a path from where something is. -/
theorem walk_error_of_isThere {fault : Fault} (hd : ".." ∉ rest) (ht : t.isThere (here ++ rest))
    (h : t.walk here rest = .error fault) : fault = .nameTooLong := by
  induction rest generalizing here with
  | nil => cases h
  | cons part rest ih =>
    rw [List.mem_cons, not_or] at hd
    have hdir := isDirectory_of_append ht (List.cons_ne_nil part rest)
    rw [walk] at h
    simp only [hdir, Bool.not_true, Bool.false_eq_true, if_false] at h
    split at h
    · exact (Except.error.inj h).symm
    · rw [if_neg (Ne.symm hd.1)] at h
      exact ih hd.2 (by simpa using ht) h

/-- A path from the root is found if its names and its length are in order and it leads to where
something is. -/
theorem find_root (path : List String) : t.find ⟨.root, []⟩ ⟨.root, path⟩ =
    if !path.all isName then .error .missing
    else if maxPath < (Path.toString ⟨.root, path⟩).utf8ByteSize then .error .nameTooLong
    else match t.walk [] path with
      | .ok place => if t.isThere place then .ok place else .error .missing
      | .error fault => .error fault := by
  have hj : (Path.join ⟨.root, []⟩ ⟨.root, path⟩).parts = path := rfl
  rw [find, hj]
  cases t.walk [] path <;> rfl

theorem walk_of_find (h : t.find ⟨.root, []⟩ ⟨.root, path⟩ = .ok place) :
    t.walk [] path = .ok place ∧ t.isThere place := by
  rw [find_root] at h
  split at h
  · cases h
  split at h
  · cases h
  cases hw : t.walk [] path with
  | error fault => simp [hw] at h
  | ok found =>
    simp only [hw] at h
    split at h
    · rename_i hp
      cases h
      exact ⟨rfl, hp⟩
    · cases h

namespace Sound
variable {name : String}

theorem name_of_isThere (ht : t.Sound) (h : t.isThere path) (hn : name ∈ path) :
    Path.IsPart name ∧ name ≠ ".." ∧ isName name := by
  obtain ⟨e, he, hp⟩ := exists_item_of_isThere h (List.ne_nil_of_mem hn)
  exact ht.named e he name (hp.subset hn)

theorem isDirectory_eq_false (ht : t.Sound) (h : t.isFile path) : t.isDirectory path = false := by
  obtain ⟨e, he, rfl⟩ := exists_item_of_isFile h
  exact ht.leaf e he h

theorem dots_of_isThere (ht : t.Sound) (h : t.isThere path) : ".." ∉ path :=
  fun hm => (ht.name_of_isThere h hm).2.1 rfl

/-- The components that lead from one place to another are double dots and names of items. -/
theorem isPart_of_walk (ht : t.Sound) (h : t.walk here rest = .ok place) (hp : t.isThere place) :
    ∀ part ∈ rest, Path.IsPart part := by
  induction rest generalizing here with
  | nil => simp
  | cons part rest ih =>
    have h := ((walk_cons part).1 h).2.2
    have hpart : Path.IsPart part := by
      by_cases hdots : part = ".."
      · subst hdots
        decide
      · rw [if_neg hdots] at h
        exact (ht.name_of_isThere (isThere_of_walk h hp) (by simp)).1
    simpa [hpart] using ih h

/-- What is there is found where it is, if the look-up does not fail. -/
theorem lookUp_eq (ht : t.Sound) (hp : t.isThere path) {place? : Option (List String)}
    (h : Glob.lookUp t path = .ok place?) : place? = some path := by
  have hn : path.all isName :=
    List.all_eq_true.2 fun name hm => (ht.name_of_isThere hp hm).2.2
  have hd := ht.dots_of_isThere hp
  rw [Glob.lookUp, find?, find_root, hn] at h
  by_cases hl : maxPath < (Path.toString ⟨.root, path⟩).utf8ByteSize
  · simp [hl] at h
  · cases hw : t.walk [] path with
    | ok place =>
      obtain rfl : place = path := walk_eq hd hw
      simpa [hl, hw, hp, eq_comm] using h
    | error fault =>
      obtain rfl := walk_error_of_isThere hd hp hw
      simp [hl, hw] at h

theorem isPart_of_lookUp (ht : t.Sound) (h : Glob.lookUp t path = .ok (some place)) :
    ∀ part ∈ path, Path.IsPart part := by
  have hf : t.find ⟨.root, []⟩ ⟨.root, path⟩ = .ok place := by
    rw [Glob.lookUp, find?] at h
    split at h
    · simp_all
    · cases h
    · cases h
  obtain ⟨hw, hp⟩ := walk_of_find hf
  exact ht.isPart_of_walk hw hp

end Sound
end Tree
end Ancestry.Disk
