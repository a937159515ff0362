import Ancestry.Session.Contents

/-!
A text without the word `provide` has no provide calls, so leaving such texts out of the search for
calls changes nothing.
-/

namespace Ancestry
open Ancestry.Text Ancestry.Source

theorem Text.cut?_cons_eq_none {mark s : List Char} {c : Char} (h : cut? mark (c :: s) = none) :
    after? mark (c :: s) = none ∧ cut? mark s = none := by
  rw [cut?] at h
  split at h
  · simp at h
  · rename_i ha
    exact ⟨ha, by simpa using h⟩

theorem Source.readCall?_eq_none {s : List Char} (h : after? "provide".toList s = none) :
    readCall? s = none := by
  rw [readCall?, callStart?, h]
  rfl

theorem Source.all_call_eq_nil {s : List Char} (h : cut? "provide".toList s = none) :
    call.all s = [] := by
  induction s with
  | nil => exact call.all_nil
  | cons c s ih =>
    obtain ⟨hc, hs⟩ := cut?_cons_eq_none h
    rw [call.all_cons_of_none (readCall?_eq_none hc)]
    exact ih hs

theorem Contents.callsIn_eq (text : String) : callsIn text = provideCalls text := by
  unfold callsIn
  split
  · rfl
  · rename_i h
    have hn : cut? "provide".toList text.toList = none := by simpa using h
    rw [provideCalls, all_call_eq_nil hn, List.map_nil]

end Ancestry
