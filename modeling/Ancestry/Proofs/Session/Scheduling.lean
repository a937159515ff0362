import Ancestry.Proofs.Session.Completion
import Ancestry.Session.Schedule

/-!
The schedule takes its turns from the pool. Whatever is due is served by turns that are possible where
they are taken, and by nothing else, so what holds after any turns of a pool holds of each call that is
scheduled.
-/

namespace Ancestry
variable {files : Files} {p p' q : Pool} {turns turns' : List (Turn × Place)}

namespace Pool

theorem turns?_append (h : p.turns? files turns = some p') (h' : p'.turns? files turns' = some q) :
    p.turns? files (turns ++ turns') = some q := by
  induction turns generalizing p with
  | nil => simpa [turns?, Option.some.inj h] using h'
  | cons t turns ih =>
    obtain ⟨r, hr, h⟩ := Option.bind_eq_some_iff.1 h
    exact Option.bind_eq_some_iff.2 ⟨r, hr, ih h⟩

/-- Some turns lead from one pool to the other. -/
def Reaches (files : Files) (p p' : Pool) : Prop :=
  ∃ turns, p.turns? files turns = some p'

theorem Reaches.refl (files : Files) (p : Pool) : p.Reaches files p :=
  ⟨[], rfl⟩

theorem Reaches.trans (h : p.Reaches files p') (h' : p'.Reaches files q) : p.Reaches files q := by
  obtain ⟨_, ht⟩ := h
  obtain ⟨_, ht'⟩ := h'
  exact ⟨_, turns?_append ht ht'⟩

theorem reaches_of_turn? {turn : Turn} {place : Place} (h : p.turn? files turn place = some p') :
    p.Reaches files p' :=
  ⟨[(turn, place)], by simp [turns?, h]⟩

/-- What each turn keeps holds wherever turns lead. -/
theorem Reaches.keeps {P : Pool → Prop}
    (hP : ∀ {p p' turn place}, p.turn? files turn place = some p' → P p → P p')
    (h : p.Reaches files p') (hp : P p) : P p' := by
  obtain ⟨turns, h⟩ := h
  induction turns generalizing p with
  | nil => exact Option.some.inj h ▸ hp
  | cons t turns ih =>
    obtain ⟨q, hq, h⟩ := Option.bind_eq_some_iff.1 h
    exact ih (hP hq hp) h

end Pool

namespace Schedule
variable (files) (place : Place) (d : Schedule)

@[simp] theorem pool_enqueue (entries : List (Due × Place)) : (d.enqueue entries).pool = d.pool :=
  rfl

@[simp] theorem pool_grantNext : d.grantNext.pool = d.pool := by
  unfold grantNext
  split <;> rfl

@[simp] theorem pool_freeSlot : d.freeSlot.pool = d.pool :=
  pool_grantNext _

theorem reaches_turn (turn : Turn) : d.pool.Reaches files (d.turn files turn place).pool := by
  unfold Schedule.turn
  cases ht : d.pool.turn? files turn place with
  | none => exact .refl files d.pool
  | some p => exact Pool.reaches_of_turn? ht

theorem reaches_complete : d.pool.Reaches files (d.complete files place).pool := by
  have h := reaches_turn files place d.freeSlot .complete
  rw [pool_freeSlot] at h
  exact h

theorem reaches_take : d.pool.Reaches files (d.take files place).pool := by
  have h := reaches_turn files place d .take
  unfold take
  simp only
  split
  · exact h.trans (reaches_complete files place _)
  · exact h

theorem reaches_acquire : d.pool.Reaches files (d.acquire files place).pool := by
  unfold acquire
  split
  · exact .refl files d.pool
  · split
    · exact reaches_take files place { d with free := d.free - 1 }
    · exact .refl files d.pool

/-- Whatever is due at a place is done by turns. -/
theorem reaches_serve (due : Due) : d.pool.Reaches files (d.serve files due place).pool := by
  cases due with
  | start =>
    have h := reaches_acquire files place ((d.turn files .start place).enqueue
      (consequences d.pool.flights[place.flight]? (d.turn files .start place).pool place))
    exact (reaches_turn files place d .start).trans h
  | granted =>
    unfold serve
    simp only
    split
    · have h := reaches_take files place
        { d with waiters := d.waiters.filter (·.place ≠ place) }.grantNext
      rw [pool_grantNext] at h
      exact h
    · exact reaches_take files place { d with waiters := d.waiters.filter (·.place ≠ place) }
  | released => exact reaches_complete files place d
  | joined => exact .refl files d.pool
  | gather => exact reaches_turn files place d .gather

theorem reaches_drain (n : Nat) : d.pool.Reaches files (d.drain files n).pool := by
  induction n generalizing d with
  | zero => exact .refl files d.pool
  | succ n ih =>
    unfold drain
    split
    · exact .refl files d.pool
    · rename_i due place queue hq
      exact (reaches_serve files place { d with queue } due).trans (ih _)

/-- A call begins as in the pool and goes on by turns. -/
theorem reaches_begin (call : Call) :
    (d.pool.begin call).Reaches files (d.begin files call).pool := by
  unfold begin
  have h := reaches_acquire files { flight := d.pool.flights.length, branch := 0 }
    ({ d with pool := d.pool.begin call }.enqueue (consequences none (d.pool.begin call)
      { flight := d.pool.flights.length, branch := 0 }))
  exact h.trans (reaches_drain files _ _)

/-- The answers at a release are those that the calls have after some turns. -/
theorem reaches_release : ∃ p, d.pool.Reaches files p ∧
    (d.release files).1 = p.flights.map Flight.answer? ∧
    (d.release files).2.pool = { p with flights := [] } := by
  let held := d.held.map fun place => (Due.released, place)
  let d' := { d with holding := false, held := [] }.enqueue held
  exact ⟨_, reaches_drain files d' d'.bound, rfl, rfl⟩

end Schedule
end Ancestry
