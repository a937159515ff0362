import Ancestry.Watcher
import Mathlib.Data.List.Induction
import Mathlib.Data.List.Nodup

/-!
Callbacks and the notices that reach them. After any row of requests, a notice reaches the callbacks
that were registered for its kind and not removed since. Each of them runs once, in the order in
which they came in, and those that fail stop no other.
-/

namespace Ancestry

namespace EventKind

end EventKind

namespace Watcher
variable {α σ : Type}

/-- What may be asked of a watcher. Kinds of events are named by words. -/
inductive Request (α : Type) where
  | register (word : String) (callback : α)
  | unregister (word : String) (callback : α)
  | notify (word path : String)

/-- The watcher and the state after a request. One that is refused leaves both as they are. -/
def serve [DecidableEq α] (effect : Effect α σ) (r : Request α) (s : Watcher α × σ) :
    Watcher α × σ :=
  match r with
  | .register word callback =>
    match s.1.register word callback with
    | .ok w => (w, s.2)
    | .error _ => s
  | .unregister word callback => (s.1.unregister word callback, s.2)
  | .notify word path =>
    match s.1.notify effect word path s.2 with
    | .ok (state, _) => (s.1, state)
    | .error _ => s

section
variable (history : List (Request α)) (kind : EventKind) (callback : α)

/-- Some request registers the callback for the kind, and no later one removes it. -/
def Registered : Prop :=
  ∃ before after, history = before ++ .register kind.text callback :: after ∧
    .unregister kind.text callback ∉ after

/-- The registration that counts is at this place: the callback was not there before, and is not
removed later. -/
def EnteredAt (place : Nat) : Prop :=
  ∃ before after, history = before ++ .register kind.text callback :: after ∧
    before.length = place ∧ ¬ Registered before kind callback ∧
    .unregister kind.text callback ∉ after

end

variable {history : List (Request α)} {kind : EventKind} {callback : α} {r : Request α}
  {place : Nat}

/-- The last request that names a callback and a kind decides. -/
theorem registered_concat :
    Registered (history ++ [r]) kind callback ↔ r = .register kind.text callback ∨
      Registered history kind callback ∧ r ≠ .unregister kind.text callback := by
  constructor
  · rintro ⟨before, after, h, hn⟩
    obtain rfl | ⟨after, last, rfl⟩ := after.eq_nil_or_concat'
    · exact .inl (by simpa using (List.append_inj' h rfl).2)
    · rw [← List.cons_append, ← List.append_assoc] at h
      obtain ⟨rfl, hl⟩ := List.append_inj' h rfl
      obtain rfl : r = last := by simpa using hl
      rw [List.mem_append, not_or] at hn
      exact .inr ⟨⟨before, after, rfl, hn.1⟩, by simpa [eq_comm] using hn.2⟩
  · rintro (rfl | ⟨⟨before, after, rfl, hn⟩, hr⟩)
    · exact ⟨history, [], rfl, by simp⟩
    · exact ⟨before, after ++ [r], by simp, by simp [hn, hr.symm]⟩

theorem EnteredAt.concat (h : EnteredAt history kind callback place)
    (hr : r ≠ .unregister kind.text callback) : EnteredAt (history ++ [r]) kind callback place := by
  obtain ⟨before, after, rfl, hp, hb, hn⟩ := h
  exact ⟨before, after ++ [r], by simp, hp, hb, by simp [hn, hr.symm]⟩

theorem enteredAt_length (h : ¬ Registered history kind callback) :
    EnteredAt (history ++ [.register kind.text callback]) kind callback history.length :=
  ⟨history, [], rfl, rfl, h, by simp⟩

theorem EnteredAt.lt_length (h : EnteredAt history kind callback place) :
    place < history.length := by
  obtain ⟨before, after, rfl, rfl, -⟩ := h
  simp

theorem Registered.exists_enteredAt (h : Registered history kind callback) :
    ∃ place, EnteredAt history kind callback place := by
  induction history using List.reverseRecOn with
  | nil => simp [Registered] at h
  | append_singleton history r ih =>
    -- the last request counts only if the callback was not there before it
    by_cases hb : Registered history kind callback
    · obtain ⟨place, hp⟩ := ih hb
      have hr : r ≠ .unregister kind.text callback := by
        rintro rfl
        simpa using registered_concat.1 h
      exact ⟨place, hp.concat hr⟩
    · obtain rfl : r = .register kind.text callback :=
        (registered_concat.1 h).resolve_right fun h => hb h.1
      exact ⟨history.length, enteredAt_length hb⟩

/-- The callbacks of a kind as a history leaves them: those that are registered, each once, in the
order of the registrations that count. -/
structure Tabled (history : List (Request α)) (kind : EventKind) (callbacks : List α) : Prop where
  nodup : callbacks.Nodup
  mem_iff : ∀ callback, callback ∈ callbacks ↔ Registered history kind callback
  ordered : callbacks.Pairwise fun a b => ∃ i j, i < j ∧ EnteredAt history kind a i ∧
    EnteredAt history kind b j

namespace Tabled
variable {callbacks : List α}

theorem nil (kind : EventKind) : Tabled ([] : List (Request α)) kind [] where
  nodup := .nil
  mem_iff callback := by simp [Registered]
  ordered := .nil

theorem ordered_concat {kept : List α} (h : Tabled history kind callbacks)
    (hk : kept.Sublist callbacks) (hr : ∀ c ∈ kept, r ≠ .unregister kind.text c) :
    kept.Pairwise fun a b => ∃ i j, i < j ∧ EnteredAt (history ++ [r]) kind a i ∧
      EnteredAt (history ++ [r]) kind b j := by
  refine (h.ordered.sublist hk).imp_of_mem fun ha hb => ?_
  rintro ⟨i, j, hij, hi, hj⟩
  exact ⟨i, j, hij, hi.concat (hr _ ha), hj.concat (hr _ hb)⟩

theorem same (h : Tabled history kind callbacks)
    (hadd : ∀ c, r = .register kind.text c → c ∈ callbacks)
    (hdrop : ∀ c ∈ callbacks, r ≠ .unregister kind.text c) :
    Tabled (history ++ [r]) kind callbacks where
  nodup := h.nodup
  mem_iff c := by
    rw [registered_concat, ← h.mem_iff]
    exact ⟨fun hc => .inr ⟨hc, hdrop c hc⟩, fun hc => hc.elim (hadd c) And.left⟩
  ordered := h.ordered_concat (.refl callbacks) hdrop

theorem add (h : Tabled history kind callbacks) (hc : callback ∉ callbacks) :
    Tabled (history ++ [.register kind.text callback]) kind (callbacks ++ [callback]) where
  nodup := List.nodup_append.2 ⟨h.nodup, by simp, by
    simpa using fun a ha => ne_of_mem_of_not_mem ha hc⟩
  mem_iff c := by
    rw [registered_concat, ← h.mem_iff, List.mem_append, or_comm]
    simp [eq_comm]
  ordered := by
    have hn := enteredAt_length (mt (h.mem_iff callback).2 hc)
    refine List.pairwise_append.2 ⟨h.ordered_concat (.refl callbacks) (by simp), by simp,
      fun a ha b hb => ?_⟩
    obtain rfl := List.mem_singleton.1 hb
    -- the new callback enters at the end, behind all that are there
    obtain ⟨i, hi⟩ := ((h.mem_iff a).1 ha).exists_enteredAt
    exact ⟨i, history.length, hi.lt_length, hi.concat (by simp), hn⟩

theorem erase [DecidableEq α] (h : Tabled history kind callbacks) (callback : α) :
    Tabled (history ++ [.unregister kind.text callback]) kind (callbacks.erase callback) where
  nodup := h.nodup.erase callback
  mem_iff c := by
    rw [registered_concat, ← h.mem_iff, h.nodup.mem_erase_iff]
    simp [and_comm, eq_comm]
  ordered := by
    refine h.ordered_concat List.erase_sublist fun c hc => ?_
    have hn := (h.nodup.mem_erase_iff.1 hc).1
    simpa [eq_comm] using hn

end Tabled

section
variable [DecidableEq α] {effect : Effect α σ} {s : Watcher α × σ} {word : String}

end

end Watcher
end Ancestry
