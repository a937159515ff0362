/-!
Recognisers: readers of one item at the start of a text, and the search for all items of a text
from left to right.
-/

namespace Ancestry.Text

/-- The text after a given beginning. -/
def after? : List Char → List Char → Option (List Char)
  | [], s => some s
  | _ :: _, [] => none
  | a :: start, b :: s => if a = b then after? start s else none

/-- The text before and after the first occurrence of `mark`. -/
def cut? (mark : List Char) : List Char → Option (List Char × List Char)
  | [] => (after? mark []).map fun rest => ([], rest)
  | c :: s =>
    match after? mark (c :: s) with
    | some rest => some ([], rest)
    | none => (cut? mark s).map fun (before, rest) => (c :: before, rest)

/-- The text before the first place at which `ends` can read, and what it leaves there. -/
def upTo? (ends : List Char → Option (List Char)) : List Char → Option (List Char × List Char)
  | [] => (ends []).map fun rest => ([], rest)
  | c :: s =>
    match ends (c :: s) with
    | some rest => some ([], rest)
    | none => (upTo? ends s).map fun (before, rest) => (c :: before, rest)

theorem length_of_after? {start s rest : List Char} (h : after? start s = some rest) :
    s.length = start.length + rest.length := by
  induction start generalizing s with
  | nil => simp_all [after?]
  | cons a start ih =>
    cases s with
    | nil => simp [after?] at h
    | cons b s =>
      rw [after?] at h
      split at h
      · have := ih h
        simp only [List.length_cons]
        omega
      · exact absurd h (by simp)

theorem length_dropWhile_le (p : Char → Bool) (s : List Char) :
    (s.dropWhile p).length ≤ s.length :=
  (List.dropWhile_sublist p).length_le

theorem length_of_cut? {mark s before rest : List Char} (h : cut? mark s = some (before, rest)) :
    s.length = before.length + mark.length + rest.length := by
  induction s generalizing before with
  | nil =>
    simp only [cut?, Option.map_eq_some_iff, Prod.mk.injEq] at h
    obtain ⟨r, hr, rfl, rfl⟩ := h
    simpa using length_of_after? hr
  | cons c s ih =>
    rw [cut?] at h
    split at h
    · rename_i r hr
      simp only [Option.some.injEq, Prod.mk.injEq] at h
      obtain ⟨rfl, rfl⟩ := h
      simpa using length_of_after? hr
    · simp only [Option.map_eq_some_iff, Prod.exists, Prod.mk.injEq] at h
      obtain ⟨b, r, hb, rfl, rfl⟩ := h
      have := ih hb
      simp only [List.length_cons]
      omega

theorem length_upTo? {ends : List Char → Option (List Char)}
    (he : ∀ {s rest}, ends s = some rest → rest.length < s.length) {s before rest : List Char}
    (h : upTo? ends s = some (before, rest)) : rest.length < s.length := by
  induction s generalizing before with
  | nil =>
    simp only [upTo?, Option.map_eq_some_iff, Prod.mk.injEq] at h
    obtain ⟨r, hr, -, rfl⟩ := h
    exact he hr
  | cons c s ih =>
    rw [upTo?] at h
    split at h
    · rename_i r hr
      simp only [Option.some.injEq, Prod.mk.injEq] at h
      obtain ⟨-, rfl⟩ := h
      exact he hr
    · simp only [Option.map_eq_some_iff, Prod.exists, Prod.mk.injEq] at h
      obtain ⟨b, r, hb, -, rfl⟩ := h
      have := ih hb
      rw [List.length_cons]
      omega

/-- A reader of one item. What is left after an item is shorter than the text it was read from. -/
structure Recogniser (α : Type) where
  read : List Char → Option (α × List Char)
  shrinks : ∀ {s a rest}, read s = some (a, rest) → rest.length < s.length

/-- All items of a text: at each place the recogniser reads one and the search goes on behind it,
or the search moves on by one character. -/
def Recogniser.all {α : Type} (r : Recogniser α) : List Char → List α
  | [] => []
  | c :: s =>
    match _h : r.read (c :: s) with
    | some (a, rest) => a :: r.all rest
    | none => r.all s
termination_by s => s.length
decreasing_by
  · exact r.shrinks _h
  · simp

namespace Recogniser
variable {α : Type} (r : Recogniser α)

@[simp] theorem all_nil : r.all [] = [] := by
  rw [all]

theorem read_nil : r.read [] = none := by
  cases h : r.read [] with
  | none => rfl
  | some item => exact absurd (r.shrinks h) (by simp)

theorem all_of_read {s rest : List Char} {a : α} (h : r.read s = some (a, rest)) :
    r.all s = a :: r.all rest := by
  cases s with
  | nil => simp [r.read_nil] at h
  | cons c s =>
    rw [all]
    split <;> simp_all

theorem all_cons_of_none {c : Char} {s : List Char} (h : r.read (c :: s) = none) :
    r.all (c :: s) = r.all s := by
  rw [all]
  split <;> simp_all

end Recogniser
end Ancestry.Text
