import Ancestry.Session.Pool

/-!
Runs: files change, events and drops reach the session, calls begin and take their turns, in any
order. A file whose changes were all followed by an event or a drop is announced.
-/

namespace Ancestry

/-- The files after one of them was written or removed. -/
def Files.put (path : String) (text? : Option String) (files : Files) : Files :=
  fun p => if p = path then text? else files p

/-- The files and the calls that read them. -/
structure World where
  files : Files
  pool : Pool

/-- What may happen next. -/
inductive Act where
  /-- A file is written, or removed where no text is given. The session does not hear of it. -/
  | put (path : String) (text? : Option String)
  | begin (call : Call)
  | turn (turn : Turn) (place : Place)
  /-- A call is answered while nothing else happens. -/
  | ask (call : Call)
  | event (kind : EventKind) (path : String)
  | clear
  /-- The contents of one path are dropped without an event. -/
  | invalidate (path : String)
  /-- All contents are dropped and the importers stay. -/
  | clearContents

namespace Act

/-- Whether the file changes. -/
def changes (path : String) : Act → Bool
  | put p _ => p = path
  | _ => false

/-- Whether what is kept of the file is dropped. -/
def drops (path : String) : Act → Bool
  | event _ p | invalidate p => p = path
  | clear | clearContents => true
  | _ => false

/-- Whether a call begins, moves on or is answered. -/
def isCall : Act → Bool
  | begin _ | turn _ _ | ask _ => true
  | _ => false

/-- Whether whatever drops contents drops importers as well. -/
def isWhole : Act → Bool
  | invalidate _ | clearContents => false
  | _ => true

/-- The files that are announced after an act, where those in `sure` were before it. -/
def announces (a : Act) (sure : String → Prop) (path : String) : Prop :=
  a.drops path ∨ (a.changes path = false ∧ sure path)

section Announces
variable {a : Act} (sure : String → Prop) (path p : String)

theorem announces_call (ha : a.isCall) : a.announces sure p ↔ sure p := by
  cases a <;> simp [isCall, announces, drops, changes] at ha ⊢

theorem announces_put (text? : Option String) :
    (put path text?).announces sure p ↔ p ≠ path ∧ sure p := by
  simp [announces, drops, changes, eq_comm]

theorem announces_event (kind : EventKind) :
    (event kind path).announces sure p ↔ p = path ∨ sure p := by
  simp [announces, drops, changes, eq_comm]

theorem announces_invalidate : (invalidate path).announces sure p ↔ p = path ∨ sure p := by
  simp [announces, drops, changes, eq_comm]

end Announces

theorem not_changes_of_drops {a : Act} {path : String} (h : a.drops path) :
    a.changes path = false := by
  cases a <;> simp_all [drops, changes]

end Act

/-- Each change of the file was followed by an event or a drop. -/
def Announced (path : String) (acts : List Act) : Prop :=
  ∀ before a after, acts = before ++ a :: after → a.changes path → ∃ d ∈ after, d.drops path

theorem announced_nil (path : String) : Announced path [] := by
  intro before a after h
  simp at h

theorem announced_cons (path : String) (a : Act) (acts : List Act) :
    Announced path (a :: acts) ↔
      (a.changes path → ∃ d ∈ acts, d.drops path) ∧ Announced path acts := by
  constructor
  · intro h
    refine ⟨h [] a acts rfl, ?_⟩
    intro before b after he hb
    exact h (a :: before) b after (by rw [he, List.cons_append]) hb
  · rintro ⟨ha, h⟩ before b after he hb
    cases before with
    | nil =>
      obtain ⟨rfl, rfl⟩ := List.cons.inj he
      exact ha hb
    | cons c before =>
      obtain ⟨rfl, ht⟩ := List.cons.inj he
      exact h before b after ht hb

instance decidableAnnounced (path : String) : (acts : List Act) → Decidable (Announced path acts)
  | [] => isTrue (announced_nil path)
  | a :: acts =>
    have := decidableAnnounced path acts
    decidable_of_iff _ (announced_cons path a acts).symm

/-- What the last act does to the announced files. -/
theorem announced_concat (path : String) (acts : List Act) (a : Act) :
    Announced path (acts ++ [a]) ↔ a.announces (Announced · acts) path := by
  constructor
  · intro h
    cases hc : a.changes path with
    | true =>
      obtain ⟨d, hd, _⟩ := h acts a [] rfl hc
      simp at hd
    | false =>
      cases hd : a.drops path with
      | true => exact .inl hd
      | false =>
        refine .inr ⟨hc, ?_⟩
        intro before b after he hb
        obtain ⟨d, hm, hdp⟩ := h before b (after ++ [a]) (by simp [he]) hb
        rcases List.mem_append.1 hm with hm | hm
        · exact ⟨d, hm, hdp⟩
        · rw [List.mem_singleton.1 hm, hd] at hdp
          simp at hdp
  · intro h before b after he hb
    rcases List.eq_nil_or_concat after with rfl | ⟨after', c, rfl⟩
    · obtain ⟨-, hab⟩ := List.append_inj' he rfl
      obtain rfl : a = b := by simpa using hab
      rcases h with hd | ⟨hc, -⟩
      · rw [Act.not_changes_of_drops hd] at hb
        simp at hb
      · simp [hc] at hb
    · rw [List.concat_eq_append, ← List.cons_append, ← List.append_assoc] at he
      obtain ⟨ha, hac⟩ := List.append_inj' he rfl
      obtain rfl : a = c := by simpa using hac
      rcases h with hd | ⟨-, h⟩
      · exact ⟨a, by simp, hd⟩
      · obtain ⟨d, hm, hdp⟩ := h before b after' ha hb
        exact ⟨d, by simp [hm], hdp⟩

theorem announced_concat_eq (acts : List Act) (a : Act) :
    (Announced · (acts ++ [a])) = a.announces (Announced · acts) :=
  funext fun path => propext (announced_concat path acts a)

namespace World

def withSession (s : Session) (w : World) : World :=
  { w with pool := { w.pool with session := s } }

/-- A session without anything kept, and no calls in flight. -/
def start (strict : Bool) (extension : String) (candidates : List String) (slots : Nat)
    (files : Files) : World :=
  ⟨files, ⟨.new strict extension candidates, slots, []⟩⟩

/-- The world after an act. A turn that is not possible changes nothing. -/
def step (w : World) : Act → World
  | .put path text? => { w with files := w.files.put path text? }
  | .begin call => { w with pool := w.pool.begin call }
  | .turn turn place => { w with pool := (w.pool.turn? w.files turn place).getD w.pool }
  | .ask call => w.withSession (w.pool.session.call w.files call).2
  | .event kind path => w.withSession (w.pool.session.handle kind path)
  | .clear => w.withSession w.pool.session.clear
  | .invalidate path => w.withSession (w.pool.session.invalidateFile path)
  | .clearContents => w.withSession w.pool.session.clearContents

def run (w : World) (acts : List Act) : World :=
  acts.foldl step w

theorem run_concat (w : World) (acts : List Act) (a : Act) :
    w.run (acts ++ [a]) = (w.run acts).step a := by
  rw [run, List.foldl_append]
  rfl

end World
end Ancestry
