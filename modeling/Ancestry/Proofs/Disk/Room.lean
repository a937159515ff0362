import Ancestry.Proofs.Disk.Selection
import Mathlib.Algebra.GroupWithZero.Nat

/-!
Trees whose paths leave room for longer ones. Nothing but a path that is too long keeps a path
pattern from being followed, so where there is room for the names in it, it is followed to its end.
-/

namespace Ancestry.Disk

section
variable {ε α β : Type} {l : List α}

theorem bind_eq_error {x : Except ε α} {f : α → Except ε β} {e : ε} :
    x >>= f = .error e ↔ x = .error e ∨ ∃ a, x = .ok a ∧ f a = .error e := by
  cases x <;> simp [bind, Except.bind]

theorem exists_error_of_mapM {f : α → Except ε β} {e : ε} (h : l.mapM f = .error e) :
    ∃ a ∈ l, f a = .error e := by
  induction l with
  | nil => cases h
  | cons a l ih =>
    rw [List.mapM_cons] at h
    obtain ha | ⟨b, -, h⟩ := bind_eq_error.1 h
    · exact ⟨a, List.mem_cons_self, ha⟩
    · obtain hl | ⟨bs, -, h⟩ := bind_eq_error.1 h
      · obtain ⟨c, hc, he⟩ := ih hl
        exact ⟨c, List.mem_cons_of_mem a hc, he⟩
      · cases h

theorem exists_mapM {f : α → Except ε (List β)} {P : β → Prop}
    (h : ∀ a ∈ l, ∃ found, f a = .ok found ∧ ∀ b ∈ found, P b) :
    ∃ founds, l.mapM f = .ok founds ∧ ∀ b ∈ founds.flatten, P b := by
  cases hf : l.mapM f with
  | ok founds =>
    refine ⟨founds, rfl, fun b hb => ?_⟩
    obtain ⟨a, ha, found, hfound, hb⟩ := (mem_of_mapM hf).2 b hb
    obtain ⟨found', hfound', hp⟩ := h a ha
    cases hfound.symm.trans hfound'
    exact hp b hb
  | error e =>
    obtain ⟨a, ha, he⟩ := exists_error_of_mapM hf
    obtain ⟨found, hfound, -⟩ := h a ha
    cases hfound.symm.trans he

theorem exists_error_of_filterAuxM {test : α → Except ε Bool} {kept : List α} {e : ε}
    (h : l.filterAuxM test kept = .error e) : ∃ a ∈ l, test a = .error e := by
  induction l generalizing kept with
  | nil => cases h
  | cons a l ih =>
    rw [List.filterAuxM] at h
    obtain ha | ⟨hit, -, h⟩ := bind_eq_error.1 h
    · exact ⟨a, List.mem_cons_self, ha⟩
    · obtain ⟨b, hb, he⟩ := ih h
      exact ⟨b, List.mem_cons_of_mem a hb, he⟩

theorem exists_error_of_filterM {test : α → Except ε Bool} {e : ε}
    (h : l.filterM test = .error e) : ∃ a ∈ l, test a = .error e := by
  obtain h | ⟨kept, -, h⟩ := bind_eq_error.1 h
  · exact exists_error_of_filterAuxM h
  · cases h

theorem exists_filterM {test : α → Except ε Bool} (h : ∀ a ∈ l, ∃ hit, test a = .ok hit) :
    ∃ out, l.filterM test = .ok out := by
  cases hf : l.filterM test with
  | ok out => exact ⟨out, rfl⟩
  | error e =>
    obtain ⟨a, ha, he⟩ := exists_error_of_filterM hf
    obtain ⟨hit, hhit⟩ := h a ha
    cases hhit.symm.trans he

end

/-- How many bytes components take where they are written, each with a slash. -/
def written (path : List String) : Nat :=
  (path.map (·.utf8ByteSize + 1)).sum

theorem written_append (path rest : List String) :
    written (path ++ rest) = written path + written rest := by
  simp [written]

theorem written_singleton (part : String) : written [part] = part.utf8ByteSize + 1 := by
  simp [written]

theorem utf8ByteSize_intercalate_cons (part : String) (path : List String) :
    ("/".intercalate (part :: path)).utf8ByteSize + 1 = written (part :: path) := by
  induction path generalizing part with
  | nil => simp [written]
  | cons next path ih =>
    have hs : "/".utf8ByteSize = 1 := rfl
    have ih := ih next
    rw [String.intercalate_cons_cons, String.utf8ByteSize_append, String.utf8ByteSize_append, hs]
    simp only [written, List.map_cons, List.sum_cons] at ih ⊢
    omega

/-- The root is written with a slash of its own. -/
theorem utf8ByteSize_toString (path : List String) :
    (Path.toString ⟨.root, path⟩).utf8ByteSize = max 1 (written path) := by
  have hs : "/".utf8ByteSize = 1 := rfl
  have ht : Path.toString ⟨.root, path⟩ = "/" ++ "/".intercalate path := rfl
  rw [ht, String.utf8ByteSize_append, hs]
  cases path with
  | nil => rfl
  | cons part path =>
    have := utf8ByteSize_intercalate_cons part path
    omega

/-- Trees in which every path can be used and could be longer by some bytes. -/
structure Tree.Room (t : Tree) (spare : Nat) : Prop where
  root : spare < maxPath
  names : ∀ e ∈ t.items, ∀ name ∈ e.1, name.utf8ByteSize ≤ maxName
  paths : ∀ e ∈ t.items, (Path.toString ⟨.root, e.1⟩).utf8ByteSize + spare ≤ maxPath

instance (t : Tree) (spare : Nat) : Decidable (t.Room spare) :=
  decidable_of_iff
    (spare < maxPath ∧ (∀ e ∈ t.items, ∀ name ∈ e.1, name.utf8ByteSize ≤ maxName) ∧
      ∀ e ∈ t.items, (Path.toString ⟨.root, e.1⟩).utf8ByteSize + spare ≤ maxPath)
    ⟨fun h => ⟨h.1, h.2.1, h.2.2⟩, fun h => ⟨h.root, h.names, h.paths⟩⟩

namespace Tree
variable {t : Tree} {here path place rest : List String} {spare excess : Nat}

theorem Room.name_of_isThere (hr : t.Room spare) (h : t.isThere path) {name : String}
    (hn : name ∈ path) : name.utf8ByteSize ≤ maxName := by
  obtain ⟨e, he, hp⟩ := exists_item_of_isThere h (List.ne_nil_of_mem hn)
  exact hr.names e he name (hp.subset hn)

theorem Room.written_of_isThere (hr : t.Room spare) (h : t.isThere path) :
    max 1 (written path) + spare ≤ maxPath := by
  by_cases hn : path = []
  · have := hr.root
    simp only [hn, written, List.map_nil, List.sum_nil]
    omega
  · obtain ⟨e, he, below, hb⟩ := exists_item_of_isThere h hn
    have hp := hr.paths e he
    rw [utf8ByteSize_toString, ← hb, written_append] at hp
    omega

theorem isThere_of_isDirectory (h : t.isDirectory path) : t.isThere path :=
  Bool.or_eq_true_iff.2 (.inr h)

/-- What is listed, or above something that is listed, is there. -/
theorem isThere_of_item {e : List String × Item} (he : e ∈ t.items) (hp : path <+: e.1) :
    t.isThere path := by
  obtain ⟨below, hb⟩ := hp
  by_cases hn : below = []
  · obtain ⟨item, hi⟩ : ∃ item, t.items.lookup path = some item := by
      rw [← Option.isSome_iff_exists, List.lookup_isSome_iff]
      exact ⟨e, he, by simp [← hb, hn]⟩
    cases item with
    | file bytes =>
      have hf : t.isFile path := by simp [isFile, item?, hi]
      exact isThere_of_isFile hf
    | directory =>
      obtain ⟨l₁, l₂, hl, -⟩ := List.lookup_eq_some_iff.1 hi
      have hm : (path, Item.directory) ∈ t.items := by simp [hl]
      exact isThere_of_isDirectory (isDirectory_iff.2 (.inr ⟨_, hm, .inl ⟨rfl, rfl⟩⟩))
  · have hlen := List.length_pos_iff.2 hn
    refine isThere_of_isDirectory (isDirectory_iff.2 (.inr ⟨e, he, .inr ⟨⟨below, hb⟩, ?_⟩⟩))
    rw [← hb, List.length_append]
    omega

theorem isThere_of_mem_names {name : String} (h : name ∈ t.names here) :
    t.isThere (here ++ [name]) := by
  obtain ⟨e, he, hp⟩ := mem_names.1 h
  exact isThere_of_item he hp

theorem walk_append (here path rest : List String) :
    t.walk here (path ++ rest) = t.walk here path >>= fun place => t.walk place rest := by
  induction path generalizing here with
  | nil => rfl
  | cons part path ih =>
    rw [List.cons_append, walk, walk]
    split
    · rfl
    · split
      · rfl
      · exact ih _

theorem exists_long_of_walk (h : t.walk here rest = .error .nameTooLong) :
    ∃ part ∈ rest, maxName < part.utf8ByteSize := by
  induction rest generalizing here with
  | nil => cases h
  | cons part rest ih =>
    rw [walk] at h
    split at h
    · split at h <;> cases h
    · split at h
      · rename_i hl
        exact ⟨part, List.mem_cons_self, hl⟩
      · obtain ⟨long, hm, hl⟩ := ih h
        exact ⟨long, List.mem_cons_of_mem part hm, hl⟩

/-- Names that are not too long lead to what is there. -/
theorem walk_of_isThere (hd : ".." ∉ rest) (hn : ∀ part ∈ rest, part.utf8ByteSize ≤ maxName)
    (h : t.isThere (here ++ rest)) : t.walk here rest = .ok (here ++ rest) := by
  cases hw : t.walk here rest with
  | ok place => rw [walk_eq hd hw]
  | error fault =>
    obtain rfl := walk_error_of_isThere hd h hw
    obtain ⟨part, hm, hl⟩ := exists_long_of_walk hw
    exact absurd (hn part hm) (Nat.not_le_of_lt hl)

end Tree

/-- How many bytes a selector may add to a path beyond those of the place where the path leads. A
step up leaves the name of the place behind it in the path. -/
def Selector.room : Selector → Nat
  | name n => if n = ".." then maxName + 4 else n.utf8ByteSize + 1
  | _ => 0

namespace Glob
variable {t : Tree} {only : Bool} {s : Selector} {selectors rest : List Selector}
  {here path place first : List String} {name : String} {spare excess : Nat}

theorem fault_of_lookUp {f : PathFault} (h : lookUp t path = .error f) :
    f.fault = .nameTooLong := by
  unfold lookUp Tree.find? at h
  split at h
  · cases h
  · cases h
    rfl
  · cases h

/-- A path that is too long is all that following can come upon. -/
theorem fault_of_follow {f : PathFault} (h : follow t only selectors here = .error f) :
    f.fault = .nameTooLong := by
  induction selectors generalizing here with
  | nil => cases h
  | cons s rest ih =>
    cases s with
    | name name =>
      rw [follow] at h
      obtain h | ⟨place?, -, h⟩ := bind_eq_error.1 h
      · exact fault_of_lookUp h
      · split at h
        · exact ih h
        · cases h
    | pattern pieces =>
      rw [follow] at h
      obtain h | ⟨place?, -, h⟩ := bind_eq_error.1 h
      · exact fault_of_lookUp h
      · cases place? with
        | none => cases h
        | some place =>
          obtain h | ⟨founds, -, h⟩ := bind_eq_error.1 h
          · obtain ⟨name, -, h⟩ := exists_error_of_mapM h
            exact ih h
          · cases h
    | anyDirectories =>
      rw [follow] at h
      obtain h | ⟨place?, -, h⟩ := bind_eq_error.1 h
      · exact fault_of_lookUp h
      · cases place? with
        | none => cases h
        | some place =>
          obtain h | ⟨founds, -, h⟩ := bind_eq_error.1 h
          · obtain ⟨d, -, h⟩ := exists_error_of_mapM h
            exact ih h
          · cases h

theorem fault_of_files {glob : Glob} {root : List String} {f : PathFault}
    (h : glob.files t root = .error f) : f.fault = .nameTooLong := by
  obtain h | ⟨place?, -, h⟩ := bind_eq_error.1 h
  · exact fault_of_lookUp h
  · cases place? with
    | none => cases h
    | some place =>
      simp only at h
      split at h
      · obtain h | ⟨paths, -, h⟩ := bind_eq_error.1 h
        · exact fault_of_follow h
        · obtain ⟨path, -, h⟩ := exists_error_of_filterM h
          obtain h | ⟨place?, -, h⟩ := bind_eq_error.1 h
          · exact fault_of_lookUp h
          · cases h
      · cases h

/-- A look-up fails for nothing but lengths. -/
theorem exists_lookUp (hn : ∀ part ∈ path, part.utf8ByteSize ≤ maxName)
    (hl : max 1 (written path) ≤ maxPath) : ∃ place?, lookUp t path = .ok place? := by
  rw [lookUp, Tree.find?, Tree.find_root, utf8ByteSize_toString, if_neg (Nat.not_lt.2 hl)]
  split
  · exact ⟨_, rfl⟩
  · rename_i h
    split at h
    · cases h
    · split at h
      · split at h <;> cases h
      · rename_i fault hw
        obtain rfl : fault = .nameTooLong := Except.error.inj h
        obtain ⟨part, hm, hl⟩ := Tree.exists_long_of_walk hw
        exact absurd (hn part hm) (Nat.not_le_of_lt hl)
  · exact ⟨_, rfl⟩

theorem lookUp_eq_some_iff : lookUp t path = .ok (some place) ↔
    path.all isName ∧ max 1 (written path) ≤ maxPath ∧ t.walk [] path = .ok place ∧
      t.isThere place := by
  rw [lookUp, Tree.find?, Tree.find_root, utf8ByteSize_toString]
  by_cases hn : path.all isName
  · by_cases hl : maxPath < max 1 (written path)
    · simp [hn, hl, Nat.not_le_of_lt hl]
    · cases hw : t.walk [] path with
      | error fault => cases fault <;> simp [hn, hl]
      | ok found =>
        simp only [hn, hl, Bool.not_true, Bool.false_eq_true, if_false, Nat.le_of_not_lt hl,
          true_and, Except.ok.injEq]
        split
        · grind
        · grind
        · grind
  · simp [hn]

/-- A path on the way leads to a place, and is not much longer than the path of that place. -/
structure Reached (t : Tree) (here place : List String) (excess : Nat) : Prop where
  found : lookUp t here = .ok (some place)
  names : ∀ part ∈ here, part.utf8ByteSize ≤ maxName
  bytes : written here ≤ written place + excess

/-- Components of a place in the tree lead on to it, and nothing is added to its path. -/
theorem Reached.below (ht : t.Sound) (hr : t.Room spare) (h : Reached t here place excess)
    (he : excess ≤ spare) (hp : t.isThere (place ++ first)) :
    Reached t (here ++ first) (place ++ first) excess := by
  have hmem : ∀ part ∈ first, part ∈ place ++ first := fun _ => List.mem_append_right place
  have hsize : ∀ part ∈ first, part.utf8ByteSize ≤ maxName := fun part hm =>
    hr.name_of_isThere hp (hmem part hm)
  have hdots : ".." ∉ first := fun hm => (ht.name_of_isThere hp (hmem _ hm)).2.1 rfl
  have hnames : first.all isName :=
    List.all_eq_true.2 fun part hm => (ht.name_of_isThere hp (hmem part hm)).2.2
  obtain ⟨hall, -, hwalk, -⟩ := lookUp_eq_some_iff.1 h.found
  have hroom := hr.written_of_isThere hp
  have hbytes : written (here ++ first) ≤ written (place ++ first) + excess := by
    have := h.bytes
    rw [written_append, written_append]
    omega
  refine ⟨lookUp_eq_some_iff.2 ⟨?_, by omega, ?_, hp⟩, ?_, hbytes⟩
  · simp [List.all_append, hall, hnames]
  · rw [Tree.walk_append, hwalk]
    exact Tree.walk_of_isThere hdots hsize hp
  · exact fun part hm => (List.mem_append.1 hm).elim (h.names part) (hsize part)

/-- A name leads to nothing, or to a place where the path has not grown by more than its room. -/
theorem Reached.named (hr : t.Room spare) (h : Reached t here place excess)
    (hn : name.utf8ByteSize ≤ maxName) (he : excess + (Selector.name name).room ≤ spare) :
    ∃ place?, lookUp t (here ++ [name]) = .ok place? ∧
      ∀ next, place? = some next →
        Reached t (here ++ [name]) next (excess + (Selector.name name).room) := by
  obtain ⟨-, -, hwalk, hthere⟩ := lookUp_eq_some_iff.1 h.found
  have hroom := hr.written_of_isThere hthere
  have hbytes := h.bytes
  have hnames : ∀ part ∈ here ++ [name], part.utf8ByteSize ≤ maxName := by
    simpa [or_imp, forall_and, hn] using h.names
  have hlength : name.utf8ByteSize + 1 ≤ (Selector.name name).room := by
    rw [Selector.room]
    split <;> omega
  have hwritten : written (here ++ [name]) = written here + (name.utf8ByteSize + 1) := by
    rw [written_append, written_singleton]
  obtain ⟨place?, hl⟩ := exists_lookUp (t := t) hnames (by omega)
  refine ⟨place?, hl, ?_⟩
  rintro next rfl
  refine ⟨hl, hnames, ?_⟩
  obtain ⟨-, -, hw, -⟩ := lookUp_eq_some_iff.1 hl
  rw [Tree.walk_append, hwalk] at hw
  obtain ⟨-, -, hw⟩ := (Tree.walk_cons name).1 hw
  cases hw
  by_cases hdots : name = ".."
  · -- a step up: the name of `place` and its slash stay in the path
    subst hdots
    have hsize : "..".utf8ByteSize = 2 := rfl
    have hup : written place ≤ written place.dropLast + (maxName + 1) := by
      rcases List.eq_nil_or_concat' place with rfl | ⟨above, last, rfl⟩
      · simp [written]
      · have hlast := hr.name_of_isThere hthere
          (List.mem_append_right above (List.mem_singleton_self last))
        rw [List.dropLast_concat, written_append, written_singleton]
        omega
    simp only [Selector.room, if_true]
    omega
  · rw [if_neg hdots, hwritten, written_append, written_singleton]
    omega

/-- The room that selectors need in all. -/
def roomFor (selectors : List Selector) : Nat :=
  (selectors.map Selector.room).sum

/-- Where there is room, selectors are followed to their end, and what is found can be looked up. -/
theorem exists_follow (ht : t.Sound) (hr : t.Room spare) (h : Reached t here place excess)
    (hn : ∀ name, .name name ∈ selectors → name.utf8ByteSize ≤ maxName)
    (he : excess + roomFor selectors ≤ spare) :
    ∃ out, follow t only selectors here = .ok out ∧
      ∀ path ∈ out, ∃ place?, lookUp t path = .ok place? := by
  induction selectors generalizing here place excess with
  | nil =>
    refine ⟨[here], rfl, ?_⟩
    simpa using ⟨_, h.found⟩
  | cons s rest ih =>
    have hrest : ∀ name, .name name ∈ rest → name.utf8ByteSize ≤ maxName := fun name hm =>
      hn name (List.mem_cons_of_mem s hm)
    have hsum : roomFor (s :: rest) = s.room + roomFor rest := by simp [roomFor]
    rw [hsum] at he
    -- what is listed in the tree below `place` is followed by the induction hypothesis
    have hbelow : ∀ first, t.isThere (place ++ first) →
        ∃ out, follow t only rest (here ++ first) = .ok out ∧
          ∀ path ∈ out, ∃ place?, lookUp t path = .ok place? := fun first hp =>
      ih (h.below ht hr (by omega) hp) hrest (by omega)
    cases s with
    | name name =>
      obtain ⟨place?, hl, hnext⟩ := h.named hr (hn name List.mem_cons_self) (by omega)
      simp only [follow, hl, bind, Except.bind]
      split
      · rename_i hfits
        obtain ⟨next, rfl, -⟩ := (Option.any_eq_true _ _).1 hfits
        exact ih (hnext next rfl) hrest (by omega)
      · exact ⟨[], rfl, by simp⟩
    | pattern pieces =>
      obtain ⟨founds, hf, hp⟩ := exists_mapM (l := (t.names place).filter fun name =>
        Pattern.matchesText pieces name.toList && endsAt t only rest (place ++ [name]))
        fun name hm => hbelow [name] (Tree.isThere_of_mem_names (List.mem_filter.1 hm).1)
      refine ⟨founds.flatten, ?_, hp⟩
      rw [follow]
      exact bind_eq_ok.2 ⟨_, h.found, bind_eq_ok.2 ⟨_, hf, rfl⟩⟩
    | anyDirectories =>
      have hdirs : ∀ d ∈ t.directoriesBelow place, t.isThere (place ++ d.drop place.length) := by
        intro d hm
        obtain ⟨-, ⟨more, rfl⟩, hd⟩ := Tree.mem_directoriesBelow.1 hm
        rw [List.drop_left]
        exact Tree.isThere_of_isDirectory hd
      obtain ⟨founds, hf, hp⟩ := exists_mapM fun d hm => hbelow _ (hdirs d hm)
      refine ⟨founds.flatten.eraseDups, ?_, fun path hm => hp path (List.mem_eraseDups.1 hm)⟩
      rw [follow]
      exact bind_eq_ok.2 ⟨_, h.found, bind_eq_ok.2 ⟨_, hf, rfl⟩⟩

/-- Where there is room for its names, a path pattern finds its files. -/
theorem exists_files {glob : Glob} {root : List String} (ht : t.Sound)
    (hr : t.Room (roomFor glob.selectors))
    (hn : ∀ name, .name name ∈ glob.selectors → name.utf8ByteSize ≤ maxName)
    (hd : t.isDirectory root) : ∃ out, glob.files t root = .ok out := by
  have hnil : Reached t [] [] 0 :=
    ⟨lookUp_eq_some_iff.2 ⟨rfl, by decide, rfl, Tree.isThere_of_isDirectory rfl⟩, by simp,
      Nat.le_refl _⟩
  have hroot : Reached t root root 0 :=
    hnil.below ht hr (Nat.zero_le _) (Tree.isThere_of_isDirectory hd)
  obtain ⟨paths, hp, hl⟩ : ∃ out, follow t glob.directoriesOnly glob.selectors root = .ok out ∧
      ∀ path ∈ out, ∃ place?, lookUp t path = .ok place? :=
    exists_follow ht hr hroot hn (by simp)
  have hfile : ∀ path ∈ paths, ∃ hit, isFileAt t path = .ok hit := by
    intro path hm
    obtain ⟨place?, hf⟩ := hl path hm
    exact ⟨_, bind_eq_ok.2 ⟨_, hf, rfl⟩⟩
  obtain ⟨out, ho⟩ := exists_filterM hfile
  exact ⟨out, bind_eq_ok.2 ⟨_, hroot.found, (if_pos hd).trans (bind_eq_ok.2 ⟨_, hp, ho⟩)⟩⟩

end Glob
end Ancestry.Disk
