import Ancestry.Proofs.Text.Runs
import Ancestry.Source.Provide
import Mathlib.Data.List.DropRight

/-!
Calls and their arguments are looked for apart. A call ends at the first closing parenthesis, and an
argument at the first white space behind which there is nothing else before a closing parenthesis. Both
searches stop at the same places, and the argument is what the call encloses.
-/

namespace Ancestry
open Ancestry.Text Ancestry.Source

namespace Text
variable {s : List Char} {c : Char}

theorem trimRight_eq_rdropWhile (s : List Char) : trimRight s = s.rdropWhile isSpace := rfl

theorem trimRight_of_blank (h : ∀ x ∈ s, isSpace x) : trimRight s = [] := by
  rw [trimRight_eq_rdropWhile, List.rdropWhile_eq_nil_iff]
  exact h

theorem trimRight_cons (h : ¬ ∀ x ∈ c :: s, isSpace x) :
    trimRight (c :: s) = c :: trimRight s := by
  induction s using List.reverseRecOn with
  | nil =>
    have hc : ¬ isSpace c := by simpa using h
    rw [trimRight_eq_rdropWhile, List.rdropWhile_singleton, if_neg hc]
    rfl
  | append_singleton s d ih =>
    rw [trimRight_eq_rdropWhile, trimRight_eq_rdropWhile, ← List.cons_append,
      List.rdropWhile_concat, List.rdropWhile_concat]
    by_cases hd : isSpace d
    · rw [if_pos hd, if_pos hd]
      apply ih
      intro hs
      apply h
      simpa [or_imp, forall_and, hd] using hs
    · rw [if_neg hd, if_neg hd, List.cons_append]

theorem isPrefix_trim (s : List Char) : trim s <+: trimLeft s :=
  List.rdropWhile_prefix isSpace (trimLeft s)

theorem trim_sublist (s : List Char) : (trim s).Sublist s :=
  (isPrefix_trim s).sublist.trans (List.dropWhile_sublist isSpace)

theorem head?_trim (s : List Char) : ∀ c ∈ (trim s).head?, isSpace c = false := by
  intro c hc
  have hh : c ∈ (trimLeft s).head? := by
    obtain ⟨t, ht⟩ := List.head?_eq_some_iff.1 hc
    obtain ⟨u, hu⟩ := isPrefix_trim s
    rw [← hu, ht]
    rfl
  have hn := List.head?_dropWhile_not isSpace s
  rw [← trimLeft, hh] at hn
  exact hn

theorem getLast?_trim (s : List Char) : ∀ c ∈ (trim s).getLast?, isSpace c = false := by
  intro c hc
  have hn := List.head?_dropWhile_not isSpace (trimLeft s).reverse
  rw [trim, trimRight, List.getLast?_reverse] at hc
  rw [hc] at hn
  exact hn

theorem trim_trim (s : List Char) : trim (trim s) = trim s :=
  trim_eq_self (head?_trim s) (getLast?_trim s)

/-- A cut does not depend on what is left out in front of it. -/
theorem cut?_dropWhile {p : Char → Bool} (hc : p c = false) (s : List Char) :
    cut? [c] (s.dropWhile p) = (cut? [c] s).map fun (before, rest) => (before.dropWhile p, rest) := by
  induction s with
  | nil => rfl
  | cons d s ih =>
    by_cases hd : p d
    · have hn : c ≠ d := by
        rintro rfl
        simp [hc] at hd
      rw [List.dropWhile_cons_of_pos hd, ih, cut?, after?, if_neg hn]
      simp [hd, Function.comp_def]
    · rw [List.dropWhile_cons_of_neg hd]
      by_cases hn : c = d
      · simp [cut?, after?, hn]
      · simp [cut?, after?, hn, hd, Function.comp_def]

end Text

namespace Source
variable {s rest : List Char}

/-- What a call encloses, without the white space around it. -/
def Call.argument (c : Call) : List Char :=
  trim c.body

theorem close?_of_blank {gap : List Char} (h : ∀ x ∈ gap, isSpace x) (rest : List Char) :
    close? (gap ++ ')' :: rest) = some rest := by
  rw [close?, dropWhile_stop h (by decide)]
  simp [after?]

theorem close?_eq_some (h : close? s = some rest) :
    ∃ gap, s = gap ++ ')' :: rest ∧ ∀ x ∈ gap, isSpace x := by
  refine ⟨s.takeWhile isSpace, ?_, fun x hx => List.mem_takeWhile_imp hx⟩
  have hd := eq_append_of_after? h
  rw [List.singleton_append] at hd
  rw [← hd, List.takeWhile_append_dropWhile]

/-- The shortest text before white space and a closing parenthesis is the text before the first closing
parenthesis without the white space at its end. -/
theorem upTo?_close? (s : List Char) :
    upTo? close? s = (cut? [')'] s).map fun (body, rest) => (trimRight body, rest) := by
  induction s with
  | nil => rfl
  | cons c s ih =>
    rw [upTo?]
    split
    · rename_i rest hr
      obtain ⟨gap, hs, hg⟩ := close?_eq_some hr
      have hn : ')' ∉ gap := fun hm => absurd (hg _ hm) (by decide)
      simp only [hs, cut?_char hn, Option.map_some, trimRight_of_blank hg]
    · rename_i hr
      have hc : ')' ≠ c := by
        rintro rfl
        have := close?_of_blank (List.forall_mem_nil _) s
        rw [List.nil_append, hr] at this
        cases this
      rw [ih, cut?, after?, if_neg hc]
      cases hb : cut? [')'] s with
      | none => rfl
      | some found =>
        obtain ⟨body, rest⟩ := found
        -- not all of it is white space, or the parenthesis behind could be read from here
        have hn : ¬ ∀ x ∈ c :: body, isSpace x := by
          intro hs
          have := close?_of_blank hs rest
          rw [List.cons_append, ← (cut?_char_iff.1 hb).1, hr] at this
          cases this
        simp only [Option.map_some, trimRight_cons hn]

theorem readArgument?_eq (s : List Char) :
    readArgument? s = (readCall? s).map fun (c, rest) => (c.argument, rest) := by
  rw [readArgument?, readCall?]
  cases callStart? s with
  | none => rfl
  | some found =>
    obtain ⟨gap, inside⟩ := found
    simp only [bind, Option.bind_some, upTo?_close?]
    rw [cut?_dropWhile (by decide)]
    cases cut? [')'] inside with
    | none => rfl
    | some found => rfl

/-- The search for arguments finds the arguments of the calls that the search for calls finds. -/
theorem all_calledArgument (s : List Char) :
    calledArgument.all s = (call.all s).map Call.argument :=
  call.all_map readArgument?_eq s

theorem arguments_eq (s : List Char) :
    arguments s = if (callStart? (trimLeft s)).isSome then (call.all s).map Call.argument
      else if trim s = [] then [] else [trim s] := by
  have ht : (calledArgument.all s).map trim = (call.all s).map Call.argument := by
    rw [all_calledArgument, List.map_map]
    exact List.map_congr_left fun c _ => trim_trim c.body
  rw [arguments, ht]

end Source
end Ancestry
