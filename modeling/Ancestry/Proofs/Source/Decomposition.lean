import Ancestry.Proofs.Source.WrittenCalls
import Mathlib.Data.List.TakeWhile

/-!
Provide calls cut a text into pieces: calls, and gaps between them in which no call begins. There is
one such way to cut a text, and the search finds the calls of it.
-/

namespace Ancestry.Source
open Ancestry.Text

variable {s gap rest : List Char} {c : Call}

/-- A call begins here: the word, white space, an opening parenthesis, and later a closing one. -/
def OpensCall (s : List Char) : Prop :=
  ∃ gap inside, s = "provide".toList ++ (gap ++ '(' :: inside) ∧ (∀ x ∈ gap, isSpace x) ∧
    ')' ∈ inside

/-- At no place inside the gap a call begins, where `behind` is the text behind the gap. -/
def Quiet (gap behind : List Char) : Prop :=
  ∀ place, place ≠ [] → place <:+ gap → ¬ OpensCall (place ++ behind)

/-- A text as gaps and calls in turn, with the texts of the calls. -/
inductive Divided : List Char → List String → Prop
  | done {gap : List Char} (h : Quiet gap []) : Divided gap []
  | next {gap rest : List Char} {c : Call} {calls : List String} (hc : c.Proper)
      (h : Quiet gap (c.text ++ rest)) (hr : Divided rest calls) :
      Divided (gap ++ (c.text ++ rest)) (String.ofList c.text :: calls)

theorem callStart?_eq_some {inside : List Char} (h : callStart? s = some (gap, inside)) :
    s = "provide".toList ++ (gap ++ '(' :: inside) ∧ ∀ x ∈ gap, isSpace x := by
  simp only [callStart?, bind, Option.bind_eq_some_iff] at h
  obtain ⟨t, ht, h⟩ := h
  split at h
  · rename_i inside' hd
    simp only [Option.some.injEq, Prod.mk.injEq] at h
    obtain ⟨rfl, rfl⟩ := h
    refine ⟨?_, fun x hx => List.mem_takeWhile_imp hx⟩
    rw [eq_append_of_after? ht, ← hd, List.takeWhile_append_dropWhile]
  · cases h

/-- What is read is a call, and it is all that is read. -/
theorem readCall?_eq_some (h : readCall? s = some (c, rest)) : s = c.text ++ rest ∧ c.Proper := by
  simp only [readCall?, bind, Option.bind_eq_some_iff, Prod.exists] at h
  obtain ⟨gap, inside, hs, body, rest', hb, h⟩ := h
  simp only [Option.some.injEq, Prod.mk.injEq] at h
  obtain ⟨rfl, rfl⟩ := h
  obtain ⟨rfl, hg⟩ := callStart?_eq_some hs
  obtain ⟨rfl, hn⟩ := cut?_char_iff.1 hb
  exact ⟨by rw [Call.text_append], hg, hn⟩

theorem opensCall_text (h : c.Proper) (rest : List Char) : OpensCall (c.text ++ rest) :=
  ⟨c.gap, c.body ++ ')' :: rest, c.text_append rest, h.gap, by simp⟩

/-- A call can be read just where one begins. -/
theorem readCall?_eq_none_iff : readCall? s = none ↔ ¬ OpensCall s := by
  constructor
  · rintro h ⟨gap, inside, rfl, hg, hi⟩
    -- the body of the call ends at the first closing parenthesis
    obtain ⟨body, rest, rfl, hn⟩ := List.eq_append_cons_of_mem hi
    have hp : Call.Proper ⟨gap, body⟩ := ⟨hg, hn⟩
    have hr := readCall?_text hp rest
    rw [Call.text_append] at hr
    cases hr.symm.trans h
  · intro h
    cases hr : readCall? s with
    | none => rfl
    | some found =>
      obtain ⟨rfl, hp⟩ := readCall?_eq_some hr
      exact absurd (opensCall_text hp found.2) h

theorem all_call_quiet (h : Quiet gap rest) : call.all (gap ++ rest) = call.all rest :=
  call.all_append_of_none fun place hn hs => readCall?_eq_none_iff.2 (h place hn hs)

theorem quiet_nil (behind : List Char) : Quiet [] behind := by
  intro place hn hs
  exact absurd (List.suffix_nil.1 hs) hn

theorem Quiet.cons {x : Char} (hx : ¬ OpensCall (x :: (gap ++ rest))) (h : Quiet gap rest) :
    Quiet (x :: gap) rest := by
  intro place hn hs
  cases List.suffix_cons_iff.1 hs with
  | inl he => simpa [he] using hx
  | inr hs => exact h place hn hs

/-- A character at which no call begins goes to the first gap. -/
theorem Divided.cons {x : Char} {calls : List String} (hx : ¬ OpensCall (x :: s))
    (h : Divided s calls) : Divided (x :: s) calls := by
  cases h with
  | done hq =>
    apply Divided.done
    exact hq.cons (by simpa using hx)
  | next hc hq hr => exact .next hc (hq.cons hx) hr

theorem divided_all (s : List Char) :
    Divided s ((call.all s).map fun c => String.ofList c.text) := by
  induction s using Recogniser.all.induct (r := call) with
  | case1 =>
    rw [call.all_nil]
    exact .done (quiet_nil [])
  | case2 x s c rest h ih =>
    rw [call.all_of_read h]
    obtain ⟨hs, hc⟩ := readCall?_eq_some h
    rw [hs]
    exact .next hc (quiet_nil _) ih
  | case3 x s h ih =>
    rw [call.all_cons_of_none h]
    exact ih.cons (readCall?_eq_none_iff.1 h)

theorem Divided.eq_all {calls : List String} (h : Divided s calls) :
    calls = (call.all s).map fun c => String.ofList c.text := by
  induction h with
  | done hq =>
    have hn := all_call_quiet hq
    rw [List.append_nil] at hn
    simp [hn]
  | next hc hq hr ih =>
    rw [all_call_quiet hq, all_call_text hc, List.map_cons, ← ih]

/-- The calls that are found are those of the one division of the text into calls and gaps: each of
them runs from the word to the first closing parenthesis, and none begins inside a gap. -/
theorem divided_iff_provideCalls (text : String) (calls : List String) :
    Divided text.toList calls ↔ calls = provideCalls text := by
  constructor
  · intro h
    rw [h.eq_all, provideCalls]
  · rintro rfl
    exact divided_all text.toList

end Ancestry.Source
