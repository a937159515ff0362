import Ancestry.Path
import Ancestry.Proofs.Text.Runs
import Mathlib.Data.List.Basic

/-!
Written paths: reading gives back what was written, so no two paths of proper components are written
alike. The extension of a name starts at its last dot, unless that dot is at either end.
-/

namespace Ancestry.Path

/-- Components that stay when a path is read. -/
def IsPart (part : String) : Prop :=
  part ≠ "" ∧ part ≠ "." ∧ '/' ∉ part.toList

instance (part : String) : Decidable (IsPart part) :=
  inferInstanceAs (Decidable (_ ∧ _ ∧ _))

/-- How many slashes an anchor is written with. -/
def slashes : Anchor → Nat
  | .relative => 0
  | .root => 1
  | .doubleRoot => 2

theorem ofSlashes_slashes (a : Anchor) : Anchor.ofSlashes (slashes a) = a := by
  cases a <;> rfl

theorem toList_text (a : Anchor) : a.text.toList = List.replicate (slashes a) '/' := by
  cases a <;> rfl

theorem splitOn_slashes (n : Nat) (s : List Char) :
    (List.replicate n '/' ++ s).splitOn '/' = List.replicate n [] ++ s.splitOn '/' := by
  induction n with
  | zero => rfl
  | succ n ih =>
    rw [List.replicate_succ, List.cons_append, List.splitOn_cons_eq_if_modifyHead, ih]
    rfl

section
variable {parts : List String}

theorem toList_intercalate (parts : List String) :
    ("/".intercalate parts).toList = ['/'].intercalate (parts.map String.toList) :=
  String.toList_intercalate

/-- The first component keeps the slashes in front apart from those between components. -/
theorem takeWhile_intercalate (h : ∀ part ∈ parts, IsPart part) :
    ("/".intercalate parts).toList.takeWhile (· = '/') = [] := by
  rw [toList_intercalate]
  cases parts with
  | nil => rfl
  | cons part rest =>
    obtain ⟨hne, -, hs⟩ := h part List.mem_cons_self
    obtain ⟨c, s, hc⟩ := List.exists_cons_of_ne_nil (mt String.toList_eq_nil_iff.1 hne)
    have hc' : c ≠ '/' := by
      rintro rfl
      simp [hc] at hs
    cases rest <;> simp [hc, hc', List.intercalate]

theorem filter_splitOn_intercalate (h : ∀ part ∈ parts, IsPart part) :
    (((("/".intercalate parts).toList.splitOn '/').map String.ofList).filter
      fun part => part ≠ "" && part ≠ ".") = parts := by
  rw [toList_intercalate]
  by_cases hn : parts = []
  · subst hn
    decide
  · have hs : ∀ l ∈ parts.map String.toList, '/' ∉ l := by
      intro l hl
      obtain ⟨part, hp, rfl⟩ := List.mem_map.1 hl
      exact (h part hp).2.2
    rw [List.splitOn_intercalate '/' hs (by simpa using hn)]
    simp only [List.map_map, Function.comp_def, String.ofList_toList, List.map_id_fun', id]
    refine List.filter_eq_self.2 fun part hp => ?_
    simp [(h part hp).1, (h part hp).2.1]

end

/-- Reading gives back what was written. -/
theorem ofString_toString {p : Path} (hp : ∀ part ∈ p.parts, IsPart part) :
    ofString p.toString = p := by
  obtain ⟨a, parts⟩ := p
  by_cases h : a = .relative ∧ parts = []
  · obtain ⟨rfl, rfl⟩ := h
    decide
  · have ht : (toString ⟨a, parts⟩).toList =
        List.replicate (slashes a) '/' ++ ("/".intercalate parts).toList := by
      simp [toString, h, toList_text]
    have hs : (List.replicate (slashes a) '/' ++ ("/".intercalate parts).toList).takeWhile
        (· = '/') = List.replicate (slashes a) '/' := by
      rw [List.takeWhile_append_of_pos (by simp +contextual [List.mem_replicate]),
        takeWhile_intercalate hp, List.append_nil]
    -- the slashes in front give the anchor, and empty components that are dropped
    simp only [ofString, ht, hs, List.length_replicate, ofSlashes_slashes, splitOn_slashes,
      List.map_append, List.filter_append, filter_splitOn_intercalate hp]
    simp

theorem toString_inj {p q : Path} (hp : ∀ part ∈ p.parts, IsPart part)
    (hq : ∀ part ∈ q.parts, IsPart part) : p.toString = q.toString ↔ p = q := by
  refine ⟨fun h => ?_, congrArg toString⟩
  rw [← ofString_toString hp, h, ofString_toString hq]

theorem splitName_of_not_mem {name : List Char} (h : '.' ∉ name) : splitName name = (name, []) := by
  have ht : name.reverse.takeWhile (· ≠ '.') = name.reverse := by
    rw [← List.append_nil name.reverse, List.takeWhile_append_of_pos, List.takeWhile_nil]
    exact fun c hc => by simpa using ne_of_mem_of_not_mem (List.mem_reverse.1 hc) h
  simp only [splitName, ht]
  simp

/-- A name is divided before its last dot. -/
theorem splitName_append {before e : List Char} (h : '.' ∉ e) :
    splitName (before ++ '.' :: e) =
      if e = [] ∨ before = [] then (before ++ '.' :: e, []) else (before, '.' :: e) := by
  have ht : (before ++ '.' :: e).reverse.takeWhile (· ≠ '.') = e.reverse := by
    have hr : (before ++ '.' :: e).reverse = e.reverse ++ '.' :: before.reverse := by simp
    rw [hr, Text.takeWhile_stop (fun c hc => ?_) (by simp)]
    simpa using ne_of_mem_of_not_mem (List.mem_reverse.1 hc) h
  have hl : (before ++ '.' :: e).length - e.length - 1 = before.length := by
    simp only [List.length_append, List.length_cons]
    omega
  simp only [splitName, ht, List.reverse_reverse, hl, List.take_left]
  by_cases he : e = [] ∨ before = []
  · rcases he with rfl | rfl <;> simp
  · rw [not_or] at he
    have hne : e.length ≠ before.length + (e.length + 1) := by omega
    simp [he.1, he.2, hne]

theorem splitName_eq_iff {name e : List Char} (hn : e ≠ []) (hd : '.' ∉ e) :
    (splitName name).2 = '.' :: e ↔ '.' :: e <:+ name ∧ name ≠ '.' :: e := by
  constructor
  · intro h
    by_cases hm : '.' ∈ name
    · obtain ⟨r, b, hr, hb⟩ := List.eq_append_cons_of_mem (List.mem_reverse.2 hm)
      have hname : name = b.reverse ++ '.' :: r.reverse := by
        rw [← List.reverse_reverse name, hr]
        simp
      rw [hname, splitName_append (by simpa using hb)] at h
      split at h
      · simp at h
      · rename_i hne
        simp only [List.cons.injEq, true_and] at h
        subst h
        refine ⟨⟨b.reverse, hname.symm⟩, fun h => ?_⟩
        rw [not_or] at hne
        simp_all
    · simp [splitName_of_not_mem hm] at h
  · rintro ⟨⟨before, rfl⟩, hb⟩
    rw [splitName_append hd, if_neg]
    rintro (h | rfl)
    · exact hn h
    · exact hb rfl

/-- An extension of one dot is that of the names that end in it and have something in front. -/
theorem extension_eq_iff {p : Path} {e : List Char} (hn : e ≠ []) (hd : '.' ∉ e) :
    p.extension = String.ofList ('.' :: e) ↔
      '.' :: e <:+ p.name.toList ∧ p.name ≠ String.ofList ('.' :: e) := by
  rw [extension, String.ofList_inj, splitName_eq_iff hn hd, ne_eq, ne_eq, ← String.toList_inj,
    String.toList_ofList]

end Ancestry.Path
