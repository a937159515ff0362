import Ancestry.Proofs.Disk.Places
import Ancestry.Proofs.Pattern.Literals
import Mathlib.Data.List.Basic

/-!
Which files a path pattern selects. Following a pattern from directory to directory finds the files
whose components the selectors stand for, one after the other.
-/

namespace Ancestry.Disk

section
variable {ε α β : Type} {l : List α}

theorem bind_eq_ok {x : Except ε α} {f : α → Except ε β} {b : β} :
    x >>= f = .ok b ↔ ∃ a, x = .ok a ∧ f a = .ok b := by
  cases x <;> simp [bind, Except.bind]

/-- Where one result after the other is asked for, all of them are there, and no others. -/
theorem mem_of_mapM {f : α → Except ε (List β)} {founds : List (List β)}
    (h : l.mapM f = .ok founds) :
    (∀ a ∈ l, ∃ found, f a = .ok found ∧ found ⊆ founds.flatten) ∧
      ∀ b ∈ founds.flatten, ∃ a ∈ l, ∃ found, f a = .ok found ∧ b ∈ found := by
  induction l generalizing founds with
  | nil =>
    cases h
    simp
  | cons a l ih =>
    rw [List.mapM_cons] at h
    obtain ⟨found, ha, h⟩ := bind_eq_ok.1 h
    obtain ⟨founds, hl, h⟩ := bind_eq_ok.1 h
    cases h
    obtain ⟨h₁, h₂⟩ := ih hl
    simp only [List.forall_mem_cons, List.exists_mem_cons_iff, List.flatten_cons, List.mem_append]
    refine ⟨⟨⟨found, ha, List.subset_append_left _ _⟩, fun c hc => ?_⟩, fun b hb => ?_⟩
    · obtain ⟨other, ho, hs⟩ := h₁ c hc
      exact ⟨other, ho, List.subset_append_of_subset_right _ hs⟩
    · exact hb.imp (fun hb => ⟨found, ha, hb⟩) (h₂ b)

theorem mem_of_filterAuxM {test : α → Except ε Bool} {kept out : List α}
    (h : l.filterAuxM test kept = .ok out) :
    (∀ a ∈ l, ∃ hit, test a = .ok hit) ∧
      ∀ a, a ∈ out ↔ a ∈ kept ∨ a ∈ l ∧ test a = .ok true := by
  induction l generalizing kept with
  | nil =>
    cases h
    simp
  | cons b l ih =>
    rw [List.filterAuxM] at h
    obtain ⟨hit, hb, h⟩ := bind_eq_ok.1 h
    obtain ⟨htests, hm⟩ := ih h
    refine ⟨List.forall_mem_cons.2 ⟨⟨hit, hb⟩, htests⟩, fun a => ?_⟩
    rw [hm a]
    cases hit with
    | true => grind
    | false => grind

theorem mem_of_filterM {test : α → Except ε Bool} {out : List α} (h : l.filterM test = .ok out) :
    (∀ a ∈ l, ∃ hit, test a = .ok hit) ∧ ∀ a, a ∈ out ↔ a ∈ l ∧ test a = .ok true := by
  obtain ⟨kept, hk, h⟩ := bind_eq_ok.1 h
  cases h
  simpa using mem_of_filterAuxM hk

end

namespace Selector

/-- Whether a selector can stand for a row of components. -/
def takes : Selector → List String → Bool
  | anyDirectories, _ => true
  | name n, first => first = [n]
  | pattern pieces, [part] => Pattern.matchesText pieces part.toList
  | pattern _, _ => false

/-- Whether selectors lead to a file, given by its components. Two asterisks stand for directories,
so that nothing but directories is found where they come last. -/
def leadTo : List Selector → List String → Bool
  | [], parts => parts.isEmpty
  | s :: rest, parts =>
    (s ≠ anyDirectories || rest ≠ []) &&
      (List.range (parts.length + 1)).any fun n =>
        s.takes (parts.take n) && leadTo rest (parts.drop n)

variable {s : Selector} {rest : List Selector} {parts first left : List String}

theorem leadTo_cons : leadTo (s :: rest) parts ↔
    (rest = [] → s ≠ anyDirectories) ∧
      ∃ first left, parts = first ++ left ∧ s.takes first ∧ leadTo rest left := by
  simp only [leadTo, Bool.and_eq_true, List.any_eq_true, List.mem_range]
  refine and_congr (by simp; tauto) ⟨?_, ?_⟩
  · rintro ⟨n, -, h⟩
    exact ⟨_, _, (List.take_append_drop n parts).symm, h⟩
  · rintro ⟨first, left, rfl, h⟩
    exact ⟨first.length, Nat.lt_succ_of_le (by simp), by simpa using h⟩

theorem eq_nil_of_leadTo_nil {selectors : List Selector} (h : leadTo selectors []) :
    selectors = [] := by
  induction selectors with
  | nil => rfl
  | cons s rest ih =>
    obtain ⟨hs, first, left, hp, ht, hl⟩ := leadTo_cons.1 h
    obtain ⟨rfl, rfl⟩ := List.append_eq_nil_iff.1 hp.symm
    have hr := ih hl
    cases s with
    | anyDirectories => exact absurd rfl (hs hr)
    | name n => simp [takes] at ht
    | pattern pieces => simp [takes] at ht

end Selector

namespace Glob
variable {t : Tree} {only : Bool} {s : Selector} {selectors rest : List Selector}
  {here first left parts path : List String} {out found : List (List String)}

/-- The files that a path pattern selects, given by their components below the root. -/
def selects (glob : Glob) (parts : List String) : Bool :=
  !glob.directoriesOnly && Selector.leadTo glob.selectors parts

/-- Whether a step may end at a place: at the end of a pattern, anywhere unless only directories are
asked for. -/
def endsAt (t : Tree) (only : Bool) (rest : List Selector) (place : List String) : Bool :=
  (rest = [] && !only) || t.isDirectory place

/-- The path that a selector looks up. -/
def looksAt (here : List String) : Selector → List String
  | .name name => here ++ [name]
  | _ => here

/-- What one step does: the components that it adds to a path. -/
inductive Leads (t : Tree) (only : Bool) (rest : List Selector) (here : List String) :
    Selector → List String → Prop
  | name {name : String} {place : List String}
      (found : lookUp t (here ++ [name]) = .ok (some place))
      (ends : endsAt t only rest place) : Leads t only rest here (.name name) [name]
  | pattern {pieces : List Pattern.Piece} {name : String} {place : List String}
      (found : lookUp t here = .ok (some place)) (listed : name ∈ t.names place)
      (fits : Pattern.matchesText pieces name.toList)
      (ends : endsAt t only rest (place ++ [name])) :
      Leads t only rest here (.pattern pieces) [name]
  | anyDirectories {place d first : List String} (found : lookUp t here = .ok (some place))
      (below : d ∈ t.directoriesBelow place) (eq : first = d.drop place.length) :
      Leads t only rest here .anyDirectories first

/-- Everything that is found comes from a step, and every step is taken to its end. -/
structure Steps (t : Tree) (only : Bool) (s : Selector) (rest : List Selector)
    (here : List String) (out : List (List String)) : Prop where
  looked : ∃ place?, lookUp t (looksAt here s) = .ok place?
  taken : ∀ first, Leads t only rest here s first →
    ∃ found, follow t only rest (here ++ first) = .ok found ∧ found ⊆ out
  origin : ∀ path ∈ out, ∃ first found, Leads t only rest here s first ∧
    follow t only rest (here ++ first) = .ok found ∧ path ∈ found

theorem follow_name {name : String} (h : follow t only (.name name :: rest) here = .ok out) :
    Steps t only (.name name) rest here out := by
  rw [follow] at h
  obtain ⟨place?, hp, h⟩ := bind_eq_ok.1 h
  refine ⟨⟨place?, hp⟩, fun first hl => ?_, fun path hm => ?_⟩
  · cases hl with
    | name found ends =>
      cases hp.symm.trans found
      exact ⟨out, (if_pos ends).symm.trans h, List.Subset.refl out⟩
  · split at h
    · rename_i ends
      obtain ⟨place, rfl, ends⟩ := (Option.any_eq_true _ _).1 ends
      exact ⟨[name], out, .name hp ends, h, hm⟩
    · cases h
      simp at hm

theorem follow_pattern {pieces : List Pattern.Piece}
    (h : follow t only (.pattern pieces :: rest) here = .ok out) :
    Steps t only (.pattern pieces) rest here out := by
  rw [follow] at h
  obtain ⟨place?, hp, h⟩ := bind_eq_ok.1 h
  cases place? with
  | none =>
    cases h
    refine ⟨⟨none, hp⟩, fun first hl => ?_, by simp⟩
    cases hl with
    | pattern found => cases hp.symm.trans found
  | some place =>
    obtain ⟨founds, hf, h⟩ := bind_eq_ok.1 h
    cases h
    obtain ⟨hall, horigin⟩ := mem_of_mapM hf
    refine ⟨⟨some place, hp⟩, fun first hl => ?_, fun path hm => ?_⟩
    · cases hl with
      | pattern found listed fits ends =>
        cases hp.symm.trans found
        exact hall _ (List.mem_filter.2 ⟨listed, Bool.and_eq_true_iff.2 ⟨fits, ends⟩⟩)
    · obtain ⟨name, hn, found, hf, hm⟩ := horigin path hm
      obtain ⟨listed, hn⟩ := List.mem_filter.1 hn
      obtain ⟨fits, ends⟩ := Bool.and_eq_true_iff.1 hn
      exact ⟨[name], found, .pattern hp listed fits ends, hf, hm⟩

theorem follow_anyDirectories (h : follow t only (.anyDirectories :: rest) here = .ok out) :
    Steps t only .anyDirectories rest here out := by
  rw [follow] at h
  obtain ⟨place?, hp, h⟩ := bind_eq_ok.1 h
  cases place? with
  | none =>
    cases h
    refine ⟨⟨none, hp⟩, fun first hl => ?_, by simp⟩
    cases hl with
    | anyDirectories found => cases hp.symm.trans found
  | some place =>
    obtain ⟨founds, hf, h⟩ := bind_eq_ok.1 h
    cases h
    obtain ⟨hall, horigin⟩ := mem_of_mapM hf
    refine ⟨⟨some place, hp⟩, fun first hl => ?_, fun path hm => ?_⟩
    · cases hl with
      | anyDirectories found below eq =>
        cases hp.symm.trans found
        obtain ⟨found, hf, hs⟩ := hall _ below
        exact ⟨found, eq ▸ hf, fun path hm => List.mem_eraseDups.2 (hs hm)⟩
    · obtain ⟨d, below, found, hf, hm⟩ := horigin path (List.mem_eraseDups.1 hm)
      exact ⟨_, found, .anyDirectories hp below rfl, hf, hm⟩

theorem follow_cons (h : follow t only (s :: rest) here = .ok out) :
    Steps t only s rest here out := by
  cases s with
  | name name => exact follow_name h
  | pattern pieces => exact follow_pattern h
  | anyDirectories => exact follow_anyDirectories h

theorem Leads.takes (h : Leads t only rest here s first) : s.takes first := by
  cases h with
  | name found ends => simp [Selector.takes]
  | pattern found listed fits ends => exact fits
  | anyDirectories found below eq => rfl

/-- A last step to a file is no step to directories. -/
theorem Leads.last (ht : t.Sound) (h : Leads t only [] here s first)
    (hf : t.isFile (here ++ first)) : only = false ∧ s ≠ .anyDirectories := by
  have hd := ht.isDirectory_eq_false hf
  have hp := Tree.isThere_of_isFile hf
  cases h with
  | name found ends =>
    cases ht.lookUp_eq hp found
    simpa [endsAt, hd] using ends
  | pattern found listed fits ends =>
    cases ht.lookUp_eq (Tree.isThere_of_append hp) found
    simpa [endsAt, hd] using ends
  | anyDirectories found below eq =>
    -- the file would be one of the directories below
    cases ht.lookUp_eq (Tree.isThere_of_append hp) found
    obtain ⟨-, ⟨more, rfl⟩, hdir⟩ := Tree.mem_directoriesBelow.1 below
    rw [List.drop_left] at eq
    rw [eq, hdir] at hd
    cases hd

/-- A step that a selector stands for is taken on the way to a file. -/
theorem leads_of_takes (ht : t.Sound) (hf : t.isFile (here ++ (first ++ left)))
    {place? : Option (List String)} (hl : lookUp t (looksAt here s) = .ok place?)
    (hs : s.takes first) (hlast : rest = [] → only = false ∧ s ≠ .anyDirectories)
    (hmore : rest ≠ [] → left ≠ []) : Leads t only rest here s first := by
  have hp : t.isThere (here ++ first ++ left) := by
    simpa using Tree.isThere_of_isFile hf
  have hfirst := Tree.isThere_of_append hp
  have hhere := Tree.isThere_of_append hfirst
  have hends : endsAt t only rest (here ++ first) := by
    by_cases hr : rest = []
    · simp [endsAt, hr, hlast hr]
    · simp [endsAt, Tree.isDirectory_of_append hp (hmore hr)]
  cases s with
  | name name =>
    obtain rfl : first = [name] := by simpa [Selector.takes] using hs
    cases ht.lookUp_eq hfirst hl
    exact .name hl hends
  | pattern pieces =>
    cases ht.lookUp_eq hhere hl
    match first, hs with
    | [name], fits =>
      have hlisted := Tree.exists_item_of_isThere hfirst (by simp)
      exact .pattern hl (Tree.mem_names.2 hlisted) fits hends
  | anyDirectories =>
    cases ht.lookUp_eq hhere hl
    -- the asterisks do not come last, so this step ends above the file
    have hr : rest ≠ [] := fun hr => (hlast hr).2 rfl
    obtain ⟨e, he, hprefix⟩ := Tree.exists_item_of_isThere hp (by simp [hmore hr])
    have hbelow : here ++ first ∈ t.directoriesBelow here :=
      Tree.mem_directoriesBelow.2 ⟨⟨e, he, (List.prefix_append _ _).trans hprefix⟩,
        List.prefix_append _ _, Tree.isDirectory_of_append hp (hmore hr)⟩
    exact .anyDirectories hl hbelow (List.drop_left ..).symm

/-- What is found for a file is what the selectors lead to. -/
theorem leadTo_of_mem_follow (ht : t.Sound) (hf : t.isFile path)
    (h : follow t only selectors here = .ok out) (hm : path ∈ out) :
    ∃ parts, path = here ++ parts ∧ Selector.leadTo selectors parts ∧
      (selectors ≠ [] → only = false) := by
  induction selectors generalizing here out with
  | nil =>
    cases h
    exact ⟨[], by simpa using hm, rfl, by simp⟩
  | cons s rest ih =>
    obtain ⟨first, found, hl, hr, hm⟩ := (follow_cons h).origin path hm
    obtain ⟨left, rfl, hleft, honly⟩ := ih hr hm
    have hlast : rest = [] → only = false ∧ s ≠ .anyDirectories := by
      rintro rfl
      obtain rfl : left = [] := by simpa [Selector.leadTo] using hleft
      exact hl.last ht (by simpa using hf)
    refine ⟨first ++ left, by simp, Selector.leadTo_cons.2 ?_, fun _ => ?_⟩
    · exact ⟨fun hr => (hlast hr).2, first, left, rfl, hl.takes, hleft⟩
    · by_cases hr : rest = []
      · exact (hlast hr).1
      · exact honly hr

/-- A file that the selectors lead to is found. -/
theorem mem_follow_of_leadTo (ht : t.Sound) (hf : t.isFile (here ++ parts))
    (h : follow t false selectors here = .ok out) (hp : Selector.leadTo selectors parts) :
    here ++ parts ∈ out := by
  induction selectors generalizing here parts out with
  | nil =>
    cases h
    simpa [Selector.leadTo] using hp
  | cons s rest ih =>
    obtain ⟨hs, first, left, rfl, htakes, hleft⟩ := Selector.leadTo_cons.1 hp
    obtain ⟨place?, hl⟩ := (follow_cons h).looked
    -- no selectors lead on from the file itself, so where some are left, components are too
    have hleads : Leads t false rest here s first := by
      refine leads_of_takes ht hf hl htakes (fun hr => ⟨rfl, hs hr⟩) fun hr hn => hr ?_
      exact Selector.eq_nil_of_leadTo_nil (hn ▸ hleft)
    obtain ⟨found, hfound, hsub⟩ := (follow_cons h).taken first hleads
    rw [← List.append_assoc] at hf ⊢
    exact hsub (ih hf hfound hleft)

/-- Whether a path leads to a file. -/
def isFileAt (t : Tree) (path : List String) : Except PathFault Bool := do
  return (← lookUp t path).any t.isFile

theorem isFileAt_eq (ht : t.Sound) (hf : t.isFile path) {hit : Bool}
    (h : isFileAt t path = .ok hit) : hit = true := by
  obtain ⟨place?, hl, h⟩ := bind_eq_ok.1 h
  cases ht.lookUp_eq (Tree.isThere_of_isFile hf) hl
  cases h
  exact hf

theorem lookUp_of_isFileAt (h : isFileAt t path = .ok true) :
    ∃ place, lookUp t path = .ok (some place) := by
  obtain ⟨place?, hl, h⟩ := bind_eq_ok.1 h
  cases place? with
  | none => cases h
  | some place => exact ⟨place, hl⟩

theorem files_cases {glob : Glob} {root : List String} (h : glob.files t root = .ok out) :
    ∃ place?, lookUp t root = .ok place? ∧
      if place?.any t.isDirectory then
        ∃ paths, follow t glob.directoriesOnly glob.selectors root = .ok paths ∧
          paths.filterM (isFileAt t) = .ok out
      else out = [] := by
  obtain ⟨place?, hl, h⟩ := bind_eq_ok.1 h
  refine ⟨place?, hl, ?_⟩
  cases place? with
  | none =>
    cases h
    rfl
  | some place =>
    by_cases hd : t.isDirectory place
    · simp only [Option.any_some, hd, if_true] at h ⊢
      exact bind_eq_ok.1 h
    · simp only [Option.any_some, hd] at h ⊢
      cases h
      rfl

/-- The files of a sound tree that are found are those that the pattern selects. -/
theorem mem_files_iff (ht : t.Sound) {glob : Glob} {root : List String} (hn : parts ≠ [])
    (hf : t.isFile (root ++ parts)) (h : glob.files t root = .ok out) :
    root ++ parts ∈ out ↔ glob.selects parts := by
  have hthere := Tree.isThere_of_isFile hf
  obtain ⟨place?, hl, h⟩ := files_cases h
  cases ht.lookUp_eq (Tree.isThere_of_append hthere) hl
  rw [Option.any_some, if_pos (Tree.isDirectory_of_append hthere hn)] at h
  obtain ⟨paths, hpaths, hout⟩ := h
  obtain ⟨htests, hmem⟩ := mem_of_filterM hout
  rw [hmem, selects, Bool.and_eq_true, Bool.not_eq_true']
  constructor
  · rintro ⟨hm, -⟩
    obtain ⟨parts', heq, hlead, honly⟩ := leadTo_of_mem_follow ht hf hpaths hm
    obtain rfl := List.append_cancel_left heq
    refine ⟨honly fun hs => hn ?_, hlead⟩
    simpa [hs, Selector.leadTo] using hlead
  · rintro ⟨honly, hlead⟩
    rw [honly] at hpaths
    have hm := mem_follow_of_leadTo ht hf hpaths hlead
    obtain ⟨hit, hhit⟩ := htests _ hm
    exact ⟨hm, isFileAt_eq ht hf hhit ▸ hhit⟩

theorem isPart_of_mem_files (ht : t.Sound) {glob : Glob} {root : List String}
    (h : glob.files t root = .ok out) (hm : path ∈ out) : ∀ part ∈ path, Path.IsPart part := by
  obtain ⟨place?, -, h⟩ := files_cases h
  split at h
  · obtain ⟨paths, -, hout⟩ := h
    obtain ⟨place, hl⟩ := lookUp_of_isFileAt (((mem_of_filterM hout).2 path).1 hm).2
    exact ht.isPart_of_lookUp hl
  · simp [h] at hm

/-- The pattern of the files at any depth whose names end in a text. -/
def ending (text : List Char) : Glob :=
  ⟨[.anyDirectories, .pattern (Pattern.pieces ('*' :: text))], false⟩

theorem hasStars_of_not_mem {s : List Char} (h : '*' ∉ s) : Selector.hasStars s = false := by
  induction s with
  | nil => rfl
  | cons c s ih =>
    rw [List.mem_cons, not_or] at h
    rw [Selector.hasStars.eq_2, ih h.2]
    rintro - rfl
    exact absurd rfl h.1

theorem selector_ending {text : String} (h : ∀ c ∈ text.toList, Pattern.IsLiteral c) :
    Selector.ofString ("*" ++ text) = .ok (.pattern (Pattern.pieces ('*' :: text.toList))) := by
  have hl : ("*" ++ text).toList = '*' :: text.toList := by simp
  have hstar : '*' ∉ text.toList := fun hm => (h _ hm).1 rfl
  have hn : "*" ++ text ≠ "**" := by
    intro he
    have ht : text.toList = ['*'] := by simpa using congrArg String.toList he
    exact hstar (by simp [ht])
  have hs : Selector.hasStars ('*' :: text.toList) = false := by
    rw [Selector.hasStars.eq_2, hasStars_of_not_mem hstar]
    intro rest _ ht
    exact hstar (by simp [ht])
  simp [Selector.ofString, hl, hn, hs]

theorem ofString_ending {text : String} (h : ∀ c ∈ text.toList, Pattern.IsLiteral c ∧ c ≠ '/') :
    ofString ("**/*" ++ text) = .ok (ending text.toList) := by
  have hslash : '/' ∉ '*' :: text.toList := by
    simpa using fun hm => (h '/' hm).2 rfl
  have hp : Path.ofString ("**/*" ++ text) = ⟨.relative, ["**", "*" ++ text]⟩ := by
    have hw : "**/*" ++ text = Path.toString ⟨.relative, ["**", "*" ++ text]⟩ := by
      apply String.toList_inj.1
      simp [Path.toString, Anchor.text]
    have hpart : Path.IsPart ("*" ++ text) := by
      refine ⟨fun he => ?_, fun he => ?_, by simpa using hslash⟩
      · simpa using congrArg String.toList he
      · simpa using congrArg String.toList he
    rw [hw, Path.ofString_toString]
    simpa [hpart] using (by decide : Path.IsPart "**")
  have hl : ('*' :: text.toList).getLast? ≠ some '/' := fun hl => hslash (List.mem_of_getLast? hl)
  have hn : "**/*" ++ text ≠ "" := fun he => by simpa using congrArg String.toList he
  have hd : Selector.ofString "**" = .ok .anyDirectories := rfl
  have hs := selector_ending fun c hc => (h c hc).1
  simp [ofString, ending, Path.isAbsolute, hp, hl, hn, hd, hs, bind, Except.bind,
    pure, Except.pure]

theorem selects_ending {text : List Char} (h : ∀ c ∈ text, Pattern.IsLiteral c)
    (above : List String) (name : String) :
    (ending text).selects (above ++ [name]) ↔ text <:+ name.toList := by
  rw [← Pattern.matchesText_ending h, selects, ending, Bool.not_false, Bool.true_and]
  constructor
  · intro hl
    obtain ⟨-, first, left, hp, -, hl⟩ := Selector.leadTo_cons.1 hl
    obtain ⟨-, last, left, rfl, ht, hl⟩ := Selector.leadTo_cons.1 hl
    obtain rfl : left = [] := by simpa [Selector.leadTo] using hl
    match last, ht with
    | [part], ht =>
      obtain ⟨-, rfl⟩ : above = first ∧ name = part := by simpa using hp
      exact ht
  · intro hm
    refine Selector.leadTo_cons.2 ⟨by simp, above, [name], rfl, rfl, Selector.leadTo_cons.2 ?_⟩
    exact ⟨by simp, [name], [], rfl, hm, rfl⟩

end Glob
end Ancestry.Disk
