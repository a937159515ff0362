import Ancestry.Proofs.Session.Scheduling

/-!
Calls that have a session to themselves. Such a call takes its turns in some order and comes to an
answer; the schedule of the program is one of the orders. A search can be taken to its answer from
wherever its turns have led.
-/

namespace Ancestry
variable {files : Files} {s₀ s t : Session} {p p' : Pool} {fl : Flight} {slots : Nat} {call : Call}

/-- Where turns go on to be possible they lead to a pool that stands still. -/
theorem Pool.Steady.exists_still (h : p.Steady files s₀) :
    ∃ p', p.Reaches files p' ∧ p'.Still files ∧ p'.Steady files s₀ := by
  induction hn : p.cost s₀.known using Nat.strongRecOn generalizing p with
  | ind n ih =>
    by_cases hs : p.Still files
    · exact ⟨p, .refl files p, hs, h⟩
    · obtain ⟨turn, place, q, hq⟩ : ∃ turn place q, p.turn? files turn place = some q := by
        simpa [Pool.Still, Option.ne_none_iff_exists'] using hs
      have hlt := h.cost_turn? hq
      obtain ⟨p', hr, hs', h'⟩ := ih _ (hn ▸ hlt) (h.turn? hq) rfl
      exact ⟨p', (Pool.reaches_of_turn? hq).trans hr, hs', h'⟩

theorem Pool.Steady.reaches (h : p.Steady files s₀) (hr : p.Reaches files p') :
    p'.Steady files s₀ ∧ p'.cost s₀.known ≤ p.cost s₀.known := by
  refine hr.keeps (P := fun p' => p'.Steady files s₀ ∧ p'.cost s₀.known ≤ p.cost s₀.known) ?_
    ⟨h, Nat.le_refl _⟩
  rintro q q' turn place hturn ⟨hq, hle⟩
  exact ⟨hq.turn? hturn, Nat.le_trans (Nat.le_of_lt (hq.cost_turn? hturn)) hle⟩

/-- A turn of the only call there is. -/
theorem Pool.turn?_solo {turn : Turn} {place : Place}
    (h : (⟨s, slots, [fl]⟩ : Pool).turn? files turn place = some p') :
    ∃ b branch x, fl.branches[b]? = some branch ∧
      Instant.EndsIn files b ⟨s, fl, .resting branch⟩ x ∧ p' = ⟨x.1, slots, [x.2]⟩ := by
  obtain ⟨fl', branch, x, hf, hb, hx, rfl⟩ := Pool.turn?_endsIn h
  obtain ⟨hi, rfl⟩ : place.flight = 0 ∧ fl' = fl := by
    rw [List.getElem?_singleton] at hf
    split at hf
    · exact ⟨‹_›, (Option.some.inj hf).symm⟩
    · cases hf
  refine ⟨place.branch, branch, x, hb, hx, ?_⟩
  simp only [Pool.update, hi, List.set_cons_zero]

/-- Turns of the only call keep it the only one. -/
theorem Pool.Reaches.solo (h : (⟨s, slots, [fl]⟩ : Pool).Reaches files p) :
    ∃ t fl', p = ⟨t, slots, [fl']⟩ ∧ fl'.call = fl.call := by
  refine h.keeps (P := fun p => ∃ t fl', p = ⟨t, slots, [fl']⟩ ∧ fl'.call = fl.call) ?_
    ⟨s, fl, rfl, rfl⟩
  rintro p p' turn place hturn ⟨t, fl', rfl, hc⟩
  obtain ⟨b, branch, x, -, hx, rfl⟩ := Pool.turn?_solo hturn
  exact ⟨_, _, rfl, hx.call_eq.trans hc⟩

/-- Whether a call is a search. -/
def Call.IsSearch : Call → Prop
  | .ancestors _ | .ancestorsOfFile _ => True
  | _ => False

theorem Flight.answer?_of_finished (hc : fl.call.IsSearch)
    (h : ∀ branch ∈ fl.branches, branch = .finished) :
    fl.answer? = some (.records fl.records) := by
  have ha : fl.branches.all (· = .finished) :=
    List.all_eq_true.2 fun branch hm => decide_eq_true (h branch hm)
  cases hcall : fl.call with
  | ancestors name => simp only [Flight.answer?, hcall, ha, if_true]
  | ancestorsOfFile path => simp only [Flight.answer?, hcall, ha, if_true]
  | _ =>
    rw [hcall] at hc
    exact hc.elim

namespace Session

/-- A call that has the session `s` to itself comes to an answer, its turns taken in some order, and
leaves the session `t`. -/
def Yields (files : Files) (slots : Nat) (call : Call) (s : Session) (answer : Answer)
    (t : Session) : Prop :=
  ∃ fl, (Pool.begin call ⟨s, slots, []⟩).Reaches files ⟨t, slots, [fl]⟩ ∧ fl.answer? = some answer

/-- What holds of the call at its first stop and is kept by each of its turns holds at its end. -/
theorem Yields.keeps {answer : Answer} {Q : Session → Flight → Prop}
    (h : s.Yields files slots call answer t) (hb : Q (s.beginCall call).1 (s.beginCall call).2)
    (ht : ∀ {s fl b branch x}, fl.branches[b]? = some branch →
      Instant.EndsIn files b ⟨s, fl, .resting branch⟩ x → Q s fl → Q x.1 x.2) :
    ∃ fl, Q t fl ∧ fl.answer? = some answer := by
  obtain ⟨fl, hr, ha⟩ := h
  have hk := hr.keeps (P := fun p => ∃ s fl, p = ⟨s, slots, [fl]⟩ ∧ Q s fl) ?_
    ⟨_, _, rfl, hb⟩
  · obtain ⟨s', fl', he, hq⟩ := hk
    cases he
    exact ⟨fl, hq, ha⟩
  · rintro p p' turn place hturn ⟨s, fl, rfl, hq⟩
    obtain ⟨b, branch, x, hbr, hx, rfl⟩ := Pool.turn?_solo hturn
    exact ⟨_, _, rfl, ht hbr hx hq⟩

/-- A pool that begins with one call goes on with one call and as many slots. -/
theorem exists_flight_of_reaches (h : (Pool.begin call ⟨s, slots, []⟩).Reaches files p) :
    ∃ t fl, p = ⟨t, slots, [fl]⟩ ∧ fl.call = call := by
  obtain ⟨t, fl, hp, hc⟩ := h.solo
  exact ⟨t, fl, hp, hc.trans (s.call_beginCall call)⟩

/-- A search comes to an answer if there is a slot. -/
theorem exists_yields (files : Files) (hs : 0 < slots) (name : String) (s : Session) :
    ∃ records t, s.Yields files slots (.ancestors name) (.records records) t := by
  have h₀ : Pool.Steady files s ⟨s, slots, []⟩ := ⟨.refl files s, nofun⟩
  obtain ⟨p, hr, hstill, -⟩ := (h₀.begin (.ancestors name)).exists_still
  obtain ⟨t, fl, rfl, hc⟩ := exists_flight_of_reaches hr
  have hsearch : fl.call.IsSearch := by
    rw [hc]
    trivial
  exact ⟨fl.records, t, fl, hr, Flight.answer?_of_finished hsearch fun branch hm =>
    hstill.finished hs (List.mem_singleton.2 rfl) hm⟩

/-- The schedule of the program is one of the orders. -/
theorem yields_of_ask {answer : Answer}
    (h : Schedule.ask files slots call s = (some answer, t)) :
    s.Yields files slots call answer t := by
  have hr := Schedule.reaches_begin files { Schedule.ofSession s slots with holding := false } call
  obtain ⟨u, fl, hp, -⟩ := exists_flight_of_reaches hr
  rw [Schedule.ask] at h
  simp only [hp, List.head?_cons, Option.bind_some, Prod.mk.injEq] at h
  obtain ⟨ha, rfl⟩ := h
  exact ⟨fl, hp ▸ hr, ha⟩

/-- A call does not change what the session shows. -/
theorem shows_ask (files : Files) (slots : Nat) (call : Call) (s : Session) :
    s.Shows files (Schedule.ask files slots call s).2 := by
  have h : Pool.Steady files s ⟨s, slots, []⟩ := ⟨.refl files s, by simp⟩
  have hr := Schedule.reaches_begin files { Schedule.ofSession s slots with holding := false } call
  exact ((h.begin call).reaches hr).1.session

end Session
end Ancestry
