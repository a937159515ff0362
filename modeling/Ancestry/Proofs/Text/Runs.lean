import Ancestry.Text.Quote
import Ancestry.Text.Recogniser
import Ancestry.Text.Space
import Ancestry.Text.Word

/-!
Texts that are put together from runs of characters, and what readers find in them.
-/

namespace Ancestry.Text
variable {mark s t rest : List Char} {p : Char → Bool} {c : Char}

theorem after?_append (mark rest : List Char) : after? mark (mark ++ rest) = some rest := by
  induction mark with
  | nil => rfl
  | cons c mark ih => simpa [after?] using ih

theorem eq_append_of_after? (h : after? mark s = some rest) : s = mark ++ rest := by
  induction mark generalizing s with
  | nil => simpa [after?] using h
  | cons a mark ih =>
    cases s with
    | nil => simp [after?] at h
    | cons b s =>
      rw [after?] at h
      split at h
      · rename_i hab
        rw [ih h, hab, List.cons_append]
      · cases h

theorem after?_eq_none_iff : after? mark s = none ↔ ¬ mark <+: s := by
  constructor
  · rintro h ⟨rest, rfl⟩
    rw [after?_append] at h
    cases h
  · intro h
    cases ha : after? mark s with
    | none => rfl
    | some rest => exact absurd ⟨rest, (eq_append_of_after? ha).symm⟩ h

/-- A mark does not start inside a text without it, even if another text follows, as long as that
one does not go on with the inside of the mark. -/
theorem after?_append_eq_none (hs : s ≠ []) (hm : ¬ mark <:+: s)
    (ht : ∀ c ∈ t.head?, c ∉ mark.tail) : after? mark (s ++ t) = none := by
  rw [after?_eq_none_iff]
  rintro ⟨rest, hr⟩
  rcases List.append_eq_append_iff.1 hr with ⟨more, hs', -⟩ | ⟨inside, hm', ht'⟩
  · exact hm (hs' ▸ (List.prefix_append mark more).isInfix)
  · cases inside with
    | nil => exact hm (by simp [hm'])
    | cons c inside =>
      obtain ⟨a, s, rfl⟩ := List.exists_cons_of_ne_nil hs
      exact ht c (by simp [ht']) (by simp [hm'])

/-- A mark that lacks the last character of a text does not go on behind that text. -/
theorem after?_append_of_last (hs : s ≠ [])
    (hl : ∀ x ∈ s.getLast?, x ∉ mark) (t : List Char) :
    after? mark (s ++ t) = (after? mark s).map (· ++ t) := by
  induction mark generalizing s with
  | nil => rfl
  | cons a mark ih =>
    obtain ⟨b, s, rfl⟩ := List.exists_cons_of_ne_nil hs
    rw [List.cons_append, after?, after?]
    by_cases hab : a = b
    · rw [if_pos hab, if_pos hab]
      cases s with
      | nil => exact absurd (List.mem_cons.2 (.inl hab.symm)) (hl b rfl)
      | cons d s =>
        apply ih (List.cons_ne_nil d s)
        intro x hx
        exact fun hm => hl x (by simpa using hx) (List.mem_cons_of_mem a hm)
    · rw [if_neg hab, if_neg hab]
      rfl

theorem cut?_char (h : c ∉ s) : cut? [c] (s ++ c :: rest) = some (s, rest) := by
  induction s with
  | nil => simp [cut?, after?]
  | cons d s ih =>
    rw [List.mem_cons, not_or] at h
    simp [cut?, after?, h.1, ih h.2]

theorem cut?_char_iff {before : List Char} :
    cut? [c] s = some (before, rest) ↔ s = before ++ c :: rest ∧ c ∉ before := by
  constructor
  · intro h
    induction s generalizing before with
    | nil => simp [cut?, after?] at h
    | cons d s ih =>
      by_cases hd : c = d
      · simp [cut?, after?, hd] at h
        simp [h, hd]
      · simp only [cut?, after?, if_neg hd, Option.map_eq_some_iff, Prod.exists, Prod.mk.injEq] at h
        obtain ⟨b, r, hb, rfl, rfl⟩ := h
        obtain ⟨rfl, hn⟩ := ih hb
        simp [hd, hn]
  · rintro ⟨rfl, hn⟩
    exact cut?_char hn

/-- A mark whose first character does not return in it is found where it first stands. -/
theorem cut?_append (hm : ¬ mark <:+: s) (hf : ∀ a ∈ mark.head?, a ∉ mark.tail) (rest : List Char) :
    cut? mark (s ++ (mark ++ rest)) = some (s, rest) := by
  cases mark with
  | nil => exact absurd (List.nil_infix) hm
  | cons a mark =>
    induction s with
    | nil => simp [cut?, after?, after?_append]
    | cons c s ih =>
      have hc : after? (a :: mark) ((c :: s) ++ ((a :: mark) ++ rest)) = none :=
        after?_append_eq_none (by simp) hm (by simpa using hf)
      have hs : ¬ a :: mark <:+: s := fun h => hm (h.trans (List.suffix_cons c s).isInfix)
      rw [List.cons_append] at hc ⊢
      simp only [cut?, hc, ih hs, Option.map_some]

/-- A character that a mark lacks divides the places where the mark can stand. -/
theorem infix_append_cons_iff (hc : c ∉ mark) :
    mark <:+: s ++ c :: t ↔ mark <:+: s ∨ mark <:+: t := by
  constructor
  · intro h
    induction s with
    | nil =>
      cases List.infix_cons_iff.1 h with
      | inl hp =>
        cases mark with
        | nil => exact .inl List.nil_infix
        | cons a mark => simp [(List.cons_prefix_cons.1 hp).1] at hc
      | inr ht => exact .inr ht
    | cons d s ih =>
      by_cases hs : mark <:+: d :: s
      · exact .inl hs
      · cases List.infix_cons_iff.1 h with
        | inl hp =>
          have hn : after? mark ((d :: s) ++ c :: t) = none :=
            after?_append_eq_none (by simp) hs (by simpa using fun h => hc (List.mem_of_mem_tail h))
          exact absurd hp (after?_eq_none_iff.1 hn)
        | inr hi => exact (ih hi).imp_left fun hs => hs.trans (List.suffix_cons d s).isInfix
  · rintro (h | h)
    · exact h.trans (List.prefix_append s (c :: t)).isInfix
    · exact h.trans ((List.suffix_cons c t).trans (List.suffix_append s (c :: t))).isInfix

theorem forall_mem_intercalate {P : Char → Prop} {sep : List Char} {parts : List (List Char)}
    (hs : ∀ c ∈ sep, P c) (hp : ∀ part ∈ parts, ∀ c ∈ part, P c) :
    ∀ c ∈ sep.intercalate parts, P c := by
  induction parts with
  | nil => simp
  | cons part parts ih =>
    have hh := hp part (by simp)
    have ht := ih fun q hq => hp q (List.mem_cons_of_mem part hq)
    cases parts with
    | nil => simpa using hh
    | cons next parts =>
      rw [List.intercalate_cons_cons]
      simp only [List.mem_append]
      rintro c ((hc | hc) | hc)
      · exact hh c hc
      · exact hs c hc
      · exact ht c hc

theorem mem_of_mem_splitOn {sep : Char} {part : List Char} (h : part ∈ s.splitOn sep) :
    ∀ c ∈ part, c ∈ s ∧ c ≠ sep := by
  induction s generalizing part with
  | nil =>
    have he : part = [] := by simpa [List.splitOn_eq_singleton] using h
    simp [he]
  | cons d s ih =>
    rw [List.splitOn_cons_eq_if_modifyHead] at h
    by_cases hd : d = sep
    · -- the parts of the rest, and an empty one before them
      rw [if_pos (by simp [hd]), List.mem_cons] at h
      cases h with
      | inl h => simp [h]
      | inr h => exact fun c hc => ⟨List.mem_cons_of_mem d (ih h c hc).1, (ih h c hc).2⟩
    · rw [if_neg (by simp [hd])] at h
      obtain ⟨first, parts, hp⟩ := List.exists_cons_of_ne_nil (List.splitOn_ne_nil sep s)
      rw [hp] at h ih
      rw [List.modifyHead_cons, List.mem_cons] at h
      cases h with
      | inl h =>
        rw [h]
        intro c hc
        cases List.mem_cons.1 hc with
        | inl hc => exact ⟨by simp [hc], hc ▸ hd⟩
        | inr hc =>
          have hf := ih List.mem_cons_self c hc
          exact ⟨List.mem_cons_of_mem d hf.1, hf.2⟩
      | inr h =>
        intro c hc
        have hf := ih (List.mem_cons_of_mem first h) c hc
        exact ⟨List.mem_cons_of_mem d hf.1, hf.2⟩

theorem takeWhile_stop (hs : ∀ x ∈ s, p x) (hc : p c = false) :
    (s ++ c :: t).takeWhile p = s := by
  rw [List.takeWhile_append_of_pos hs, List.takeWhile_cons_of_neg (by simp [hc]), List.append_nil]

theorem dropWhile_stop (hs : ∀ x ∈ s, p x) (hc : p c = false) :
    (s ++ c :: t).dropWhile p = c :: t := by
  rw [List.dropWhile_append_of_pos hs, List.dropWhile_cons_of_neg (by simp [hc])]

theorem dropWhile_eq_self (h : ∀ c ∈ s.head?, p c = false) : s.dropWhile p = s := by
  cases s with
  | nil => rfl
  | cons c s => rw [List.dropWhile_cons_of_neg (by simp [h c rfl])]

theorem head?_dropWhile (p : Char → Bool) (s : List Char) :
    ∀ c ∈ (s.dropWhile p).head?, p c = false := by
  intro c hc
  have hn := List.head?_dropWhile_not p s
  rw [hc] at hn
  exact hn

theorem head?_of_takeWhile (h : s.takeWhile p = []) : ∀ c ∈ s.head?, p c = false := by
  cases s with
  | nil => simp
  | cons c s => simpa [List.takeWhile_cons] using h

theorem takeWhile_append_stop (ht : ∀ x ∈ t.head?, p x = false) :
    (s ++ t).takeWhile p = s.takeWhile p := by
  induction s with
  | nil =>
    cases t with
    | nil => rfl
    | cons x t => exact List.takeWhile_cons_of_neg (by simp [ht x rfl])
  | cons c s ih =>
    by_cases hc : p c
    · rw [List.cons_append, List.takeWhile_cons_of_pos hc, List.takeWhile_cons_of_pos hc, ih]
    · rw [List.cons_append, List.takeWhile_cons_of_neg hc, List.takeWhile_cons_of_neg hc]

theorem dropWhile_append_stop (ht : ∀ x ∈ t.head?, p x = false) :
    (s ++ t).dropWhile p = s.dropWhile p ++ t := by
  induction s with
  | nil => exact dropWhile_eq_self ht
  | cons c s ih =>
    by_cases hc : p c
    · rw [List.cons_append, List.dropWhile_cons_of_pos hc, List.dropWhile_cons_of_pos hc, ih]
    · rw [List.cons_append, List.dropWhile_cons_of_neg hc, List.dropWhile_cons_of_neg hc,
        List.cons_append]

theorem trim_eq_self (hf : ∀ c ∈ s.head?, isSpace c = false)
    (hl : ∀ c ∈ s.getLast?, isSpace c = false) : trim s = s := by
  rw [trim, trimLeft, dropWhile_eq_self hf, trimRight, dropWhile_eq_self, List.reverse_reverse]
  rwa [List.head?_reverse]

theorem trim_between {a b : Char} (ha : isSpace a = false) (hb : isSpace b = false)
    (s : List Char) : trim (a :: (s ++ [b])) = a :: (s ++ [b]) := by
  apply trim_eq_self
  · simpa using ha
  · rw [← List.cons_append, List.getLast?_concat]
    simpa using hb

theorem trim_append (hs : ∀ c ∈ s, isSpace c) (t : List Char) : trim (s ++ t) = trim t := by
  rw [trim, trimLeft, List.dropWhile_append_of_pos hs, ← trimLeft, ← trim]

/-- White space around a text that neither begins nor ends with any is all that is trimmed. -/
theorem trim_padded (hf : ∀ c ∈ s.head?, isSpace c = false)
    (hl : ∀ c ∈ s.getLast?, isSpace c = false) {before behind : List Char}
    (hb : ∀ c ∈ before, isSpace c) (ha : ∀ c ∈ behind, isSpace c) :
    trim (before ++ (s ++ behind)) = s := by
  rw [trim_append hb]
  cases s with
  | nil =>
    have hn := trim_append ha []
    rwa [List.append_nil] at hn
  | cons a s =>
    have hr : (a :: s).reverse.dropWhile isSpace = (a :: s).reverse :=
      dropWhile_eq_self (by rwa [List.head?_reverse])
    rw [trim, trimLeft, dropWhile_eq_self (by simpa using hf), trimRight, List.reverse_append,
      List.dropWhile_append_of_pos (by simpa using ha), hr, List.reverse_reverse]

theorem dropTrailingQuote_concat (hc : isQuote c) : dropTrailingQuote (s ++ [c]) = s := by
  have hn : c ≠ '\n' := by
    rintro rfl
    exact absurd hc (by decide)
  induction s with
  | nil => simp [dropTrailingQuote, hc]
  | cons d s ih =>
    rw [List.cons_append, dropTrailingQuote, ih]
    · simp
    · intro h
      cases s <;> simp_all

theorem dropQuotes_quoted {a b : Char} (ha : isQuote a) (hb : isQuote b) (s : List Char) :
    dropQuotes (a :: (s ++ [b])) = s := by
  rw [dropQuotes, dropLeadingQuote, if_pos ha, dropTrailingQuote_concat hb]

theorem dropTrailingQuote_eq_self (h : ∀ c ∈ s, isQuote c = false) : dropTrailingQuote s = s := by
  fun_induction dropTrailingQuote s with
  | case1 => rfl
  | case2 c hc => simp [h c] at hc
  | case3 => rfl
  | case4 c hc => simp [h c] at hc
  | case5 => rfl
  | case6 c s _ _ ih => rw [ih fun d hd => h d (List.mem_cons_of_mem c hd)]

theorem dropQuotes_eq_self (h : ∀ c ∈ s, isQuote c = false) : dropQuotes s = s := by
  cases s with
  | nil => rfl
  | cons c s => simp [dropQuotes, dropLeadingQuote, h c, dropTrailingQuote_eq_self h]

theorem isQuote_eq_false_of_isWord (h : isWord c) : isQuote c = false := by
  rw [Bool.eq_false_iff]
  intro hq
  simp only [isQuote, Bool.or_eq_true, beq_iff_eq] at hq
  rcases hq with rfl | rfl <;> exact absurd h (by decide)

theorem isSpace_eq_false_of_isQuote (h : isQuote c) : isSpace c = false := by
  simp only [isQuote, Bool.or_eq_true, beq_iff_eq] at h
  rcases h with rfl | rfl <;> decide

theorem isQuote_eq_false_of_isSpace (h : isSpace c) : isQuote c = false := by
  rw [Bool.eq_false_iff]
  intro hq
  simp [isSpace_eq_false_of_isQuote hq] at h

/-- The code points of white space. -/
def spaceCodes : List Nat :=
  List.range' 9 5 ++ List.range' 28 5 ++ [0x85, 0xa0, 0x1680] ++ List.range' 0x2000 11 ++
    [0x2028, 0x2029, 0x202f, 0x205f, 0x3000]

theorem toNat_mem_spaceCodes (h : isSpace c) : c.toNat ∈ spaceCodes := by
  simp only [isSpace, Bool.or_eq_true, Bool.and_eq_true, decide_eq_true_eq, beq_iff_eq] at h
  simp only [spaceCodes, List.mem_append, List.mem_range'_1, List.mem_cons, List.not_mem_nil,
    or_false]
  omega

theorem isSpace_eq_false_of_isWord (h : isWord c) : isSpace c = false := by
  have hw : ∀ n ∈ spaceCodes, isWord (Char.ofNat n) = false := by decide +kernel
  rw [Bool.eq_false_iff]
  intro hs
  have hc := hw _ (toNat_mem_spaceCodes hs)
  rw [Char.ofNat_toNat, h] at hc
  cases hc

namespace Recogniser
variable {α : Type} (r : Recogniser α)

/-- The search passes over a gap at no place of which an item can be read. -/
theorem all_append_of_none {gap s : List Char}
    (h : ∀ t, t ≠ [] → t <:+ gap → r.read (t ++ s) = none) : r.all (gap ++ s) = r.all s := by
  induction gap with
  | nil => rfl
  | cons c gap ih =>
    have hc : r.read (c :: (gap ++ s)) = none := h (c :: gap) (by simp) List.suffix_rfl
    rw [List.cons_append, r.all_cons_of_none hc]
    exact ih fun t ht hs => h t ht (hs.trans (List.suffix_cons c gap))

theorem forall_mem_all {P : α → Prop} (h : ∀ {s a rest}, r.read s = some (a, rest) → P a)
    (s : List Char) : ∀ a ∈ r.all s, P a := by
  induction s using Recogniser.all.induct (r := r) with
  | case1 => simp
  | case2 c s a rest hr ih =>
    rw [r.all_of_read hr]
    exact List.forall_mem_cons.2 ⟨h hr, ih⟩
  | case3 c s hr ih =>
    rw [r.all_cons_of_none hr]
    exact ih

/-- A recogniser that reads where another one does, and as far, finds as many items as that one. -/
theorem all_map {β : Type} {f : α → β} {r' : Recogniser β}
    (h : ∀ s, r'.read s = (r.read s).map fun (a, rest) => (f a, rest)) (s : List Char) :
    r'.all s = (r.all s).map f := by
  induction s using Recogniser.all.induct (r := r) with
  | case1 => rw [r.all_nil, r'.all_nil, List.map_nil]
  | case2 c s a rest hr ih =>
    have hr' := h (c :: s)
    rw [hr] at hr'
    rw [r.all_of_read hr, r'.all_of_read hr', ih, List.map_cons]
  | case3 c s hr ih =>
    have hr' := h (c :: s)
    rw [hr] at hr'
    rw [r.all_cons_of_none hr, r'.all_cons_of_none hr', ih]

/-- The items of a text that is put together from pieces with one item each. -/
theorem all_flatMap {ι : Type} {pieces : List ι} {text : ι → List Char} {item : ι → α}
    (h : ∀ i ∈ pieces, ∀ rest, r.all (text i ++ rest) = item i :: r.all rest) (last : List Char) :
    r.all (pieces.flatMap text ++ last) = pieces.map item ++ r.all last := by
  induction pieces with
  | nil => rfl
  | cons i pieces ih =>
    have hi := h i (by simp) (pieces.flatMap text ++ last)
    have ht := ih fun j hj => h j (List.mem_cons_of_mem i hj)
    rw [List.flatMap_cons, List.append_assoc, hi, ht, List.map_cons, List.cons_append]

end Recogniser
end Ancestry.Text
