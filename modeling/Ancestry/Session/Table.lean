/-!
Tables: finite maps from names to values, kept as a list with the newest entry first.
-/

namespace Ancestry

/-- A finite map with names as keys. -/
structure Table (α : Type) where
  entries : List (String × α)

namespace Table
variable {α : Type}

def empty : Table α :=
  ⟨[]⟩

def get? (t : Table α) (key : String) : Option α :=
  t.entries.lookup key

def erase (t : Table α) (key : String) : Table α :=
  ⟨t.entries.filter fun e => e.1 ≠ key⟩

/-- Puts a value under a key, in place of the value that was there. -/
def insert (t : Table α) (key : String) (value : α) : Table α :=
  ⟨(key, value) :: (t.erase key).entries⟩

def mapValues (f : α → α) (t : Table α) : Table α :=
  ⟨t.entries.map fun e => (e.1, f e.2)⟩

def contains (t : Table α) (key : String) : Bool :=
  (t.get? key).isSome

def keys (t : Table α) : List String :=
  t.entries.map (·.1)

def size (t : Table α) : Nat :=
  t.entries.length

@[simp] theorem get?_empty (key : String) : (empty : Table α).get? key = none := rfl

@[simp] theorem get?_insert_self (t : Table α) (key : String) (value : α) :
    (t.insert key value).get? key = some value := by
  simp [get?, insert]

theorem get?_erase (t : Table α) (key k : String) :
    (t.erase key).get? k = if k = key then none else t.get? k := by
  obtain ⟨entries⟩ := t
  simp only [get?, erase]
  induction entries with
  | nil => simp
  | cons e entries ih =>
    obtain ⟨a, v⟩ := e
    by_cases ha : a = key
    · subst ha
      by_cases hk : k = a
      · simpa [hk] using ih
      · simpa [hk, List.lookup_cons, beq_false_of_ne hk] using ih
    · by_cases hk : k = a
      · subst hk
        simp [ha]
      · simpa [ha, List.lookup_cons, beq_false_of_ne hk] using ih

theorem get?_insert (t : Table α) (key k : String) (value : α) :
    (t.insert key value).get? k = if k = key then some value else t.get? k := by
  by_cases hk : k = key
  · simp [hk]
  · have he := t.get?_erase key k
    simp only [hk, if_false] at he ⊢
    rw [← he]
    simp [get?, insert, List.lookup_cons, beq_false_of_ne hk]

theorem get?_mapValues (f : α → α) (t : Table α) (key : String) :
    (t.mapValues f).get? key = (t.get? key).map f := by
  obtain ⟨entries⟩ := t
  simp only [get?, mapValues]
  induction entries with
  | nil => rfl
  | cons e entries ih =>
    obtain ⟨a, v⟩ := e
    by_cases hk : key == a
    · simp [List.lookup_cons, hk]
    · simpa [List.lookup_cons, hk] using ih

theorem mem_of_get? {t : Table α} {key : String} {value : α} (h : t.get? key = some value) :
    (key, value) ∈ t.entries := by
  obtain ⟨entries⟩ := t
  simp only [get?] at h
  induction entries with
  | nil => simp at h
  | cons e entries ih =>
    obtain ⟨k, v⟩ := e
    simp only [List.lookup_cons] at h
    by_cases hk : key == k
    · simp only [hk, Option.some.injEq] at h
      simp [beq_iff_eq.1 hk, h]
    · simp only [hk] at h
      simp [ih h]

end Table
end Ancestry
