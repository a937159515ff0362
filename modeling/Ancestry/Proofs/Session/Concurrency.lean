import Ancestry.Proofs.Session.Faithful
import Ancestry.Proofs.Session.Underway

/-!
Searches in flight. The branches of a search share the files visited and the records, and any of them
may move next, between turns of other calls. While no file changes and no event comes, each of its
instants is an instant of one search that is under way.
-/

namespace Ancestry
variable {files : Files} {s₀ s : Session} {name : String} {fl : Flight} {p : Pool} {b : Nat}

namespace Branch

/-- The visited file that is not reported yet. -/
def looked : Branch → List String
  | looking r => [r.path]
  | _ => []

/-- The component whose importers are asked for. -/
def names : Branch → List String
  | scanning scan => [scan.name]
  | _ => []

/-- The file to visit. -/
def ahead : Branch → List String
  | visiting path => [path]
  | _ => []

end Branch

namespace Stage

def looked : Stage → List String
  | resting branch => branch.looked
  | entering path | reporting path _ => [path]
  | _ => []

def names : Stage → List String
  | resting branch => branch.names
  | exploring name => [name]
  | _ => []

def ahead : Stage → List String
  | resting branch => branch.ahead
  | ascending found => found
  | _ => []

end Stage

/-- If the call is a search, it is under way with what one branch has in hand at its stage and what
the others have. -/
def Flight.Seeks (files : Files) (s₀ : Session) (fl : Flight) (stage : Stage)
    (others : List Branch) : Prop :=
  ∀ name, fl.call = .ancestors name →
    s₀.Underway files name fl.visited fl.records (stage.looked ++ others.flatMap Branch.looked)
      (stage.names ++ others.flatMap Branch.names) (stage.ahead ++ others.flatMap Branch.ahead)

/-- A call between two turns. A finished branch has nothing in hand, so it may stand for none. -/
structure Flight.Steady (files : Files) (s₀ : Session) (fl : Flight) : Prop where
  branches : ∀ branch ∈ fl.branches, branch.Faithful files s₀
  seeks : fl.Seeks files s₀ (.resting .finished) fl.branches

/-- A call in the middle of a turn of branch `b`. -/
structure Instant.Steady (files : Files) (s₀ : Session) (b : Nat) (m : Instant) : Prop where
  faithful : m.Faithful files s₀
  branch : b < m.flight.branches.length
  seeks : m.flight.Seeks files s₀ m.stage (m.flight.finish b).branches

structure Pool.Steady (files : Files) (s₀ : Session) (p : Pool) : Prop where
  session : s₀.Shows files p.session
  flights : ∀ fl ∈ p.flights, fl.Steady files s₀

theorem flatMap_set_perm {α β : Type} (f : α → List β) {l : List α} {y : α} (hb : b < l.length)
    (hy : f y = []) (x : α) : ((l.set b x).flatMap f).Perm (f x ++ (l.set b y).flatMap f) := by
  rw [List.set_eq_take_append_cons_drop, if_pos hb, List.set_eq_take_append_cons_drop, if_pos hb]
  simp only [List.flatMap_append, List.flatMap_cons, hy, List.nil_append]
  exact List.perm_append_comm_assoc _ _ _

/-- What a branch has in hand is the same whether it is counted among the branches or apart. -/
theorem Flight.seeks_setBranch (hb : b < fl.branches.length) (branch : Branch) :
    (fl.setBranch b branch).Seeks files s₀ (.resting .finished) (fl.setBranch b branch).branches ↔
      fl.Seeks files s₀ (.resting branch) (fl.finish b).branches := by
  have hl := flatMap_set_perm Branch.looked hb (y := .finished) rfl branch
  have hn := flatMap_set_perm Branch.names hb (y := .finished) rfl branch
  have ha := flatMap_set_perm Branch.ahead hb (y := .finished) rfl branch
  constructor
  · exact fun h name hc => (h name hc).perm hl hn ha
  · exact fun h name hc => (h name hc).perm hl.symm hn.symm ha.symm

theorem Flight.setBranch_self {branch : Branch} (h : fl.branches[b]? = some branch) :
    fl.setBranch b branch = fl := by
  obtain ⟨hb, rfl⟩ := List.getElem?_eq_some_iff.1 h
  rw [Flight.setBranch, List.set_getElem_self]

theorem Instant.Steady.next {m m' : Instant} (h : m.Steady files s₀ b) (hn : m.Next files m') :
    m'.Steady files s₀ b := by
  have hf := h.faithful.next hn
  obtain ⟨hm, hb, hs⟩ := h
  cases hn with
  | skip hv => exact ⟨hf, hb, fun n hc => (hs n hc).skip hv⟩
  | enter hv => exact ⟨hf, hb, fun n hc => (hs n hc).enter hv⟩
  | textKnown ht => exact ⟨hf, hb, hs⟩
  | askText ht => exact ⟨hf, hb, hs⟩
  | takeText hr => exact ⟨hf, hb, hs⟩
  | endText hr => exact ⟨hf, hb, hs⟩
  | callsKnown hc => exact ⟨hf, hb, hs⟩
  | callsOfKnown hc ht => exact ⟨hf, hb, hs⟩
  | askCalls hc ht => exact ⟨hf, hb, hs⟩
  | takeCalls hr =>
    rename_i s fl r
    refine ⟨hf, hb, ?_⟩
    obtain ⟨stats, hx⟩ := s.takeText_eq files r
    rw [hx]
    exact hs
  | endCalls hr => exact ⟨hf, hb, hs⟩
  | tell hc => exact ⟨hf, hb, fun n hx => nomatch hc.symm.trans hx⟩
  | report hc => exact ⟨hf, hb, fun n hx => (hs n hx).report hm.stage⟩
  | listKnown hl =>
    refine ⟨hf, hb, fun n hx => ?_⟩
    have ha := (hs n hx).ascend
    rw [hm.session.shownImporters_of_some hl] at ha
    exact ha
  | scan hl => exact ⟨hf, hb, hs⟩
  | cell ho hn => exact ⟨hf, hb, hs⟩
  | gather hc =>
    refine ⟨hf, hb, fun n hx => ?_⟩
    have ha := (hs n hx).ascend
    rw [← hm.stage.settle_fst hc hm.session] at ha
    exact ha
  | answer hc => exact ⟨hf, hb, fun n hx => nomatch hc.symm.trans hx⟩
  | spread hc =>
    rename_i s fl found
    refine ⟨hf, ?_, fun n hx => ?_⟩
    · rw [List.length_append]
      exact Nat.lt_add_right _ hb
    · have hl : (found.map Branch.visiting).flatMap Branch.looked = [] := by
        simp [List.flatMap_map, Branch.looked]
      have hn : (found.map Branch.visiting).flatMap Branch.names = [] := by
        simp [List.flatMap_map, Branch.names]
      have ha : (found.map Branch.visiting).flatMap Branch.ahead = found := by
        simp [List.flatMap_map, Branch.ahead]
      simp only [Flight.finish_spread hb, List.flatMap_append, hl, hn, ha, List.append_nil]
      exact (hs n hx).perm (.refl _) (.refl _) List.perm_append_comm

theorem Instant.Steady.endsIn {m : Instant} {x : Session × Flight} (h : m.Steady files s₀ b)
    (hx : m.EndsIn files b x) : s₀.Shows files x.1 ∧ x.2.Steady files s₀ := by
  obtain ⟨fl, branch, hr, he⟩ := hx.keeps (fun hn h => Instant.Steady.next h hn) h
  rw [he]
  have hs := (Flight.seeks_setBranch hr.branch branch).2 hr.seeks
  refine ⟨hr.faithful.session, fun other ho => ?_, hs⟩
  rcases List.mem_or_eq_of_mem_set ho with ho | rfl
  · exact hr.faithful.branches other ho
  · exact hr.faithful.stage

theorem Instant.steady_begin (h : s₀.Shows files s) (call : Call) :
    Instant.Steady files s₀ 0 ⟨s, { call }, call.stage⟩ := by
  refine ⟨⟨h, ?_, ?_⟩, Nat.zero_lt_one, ?_⟩
  · intro branch hb
    rw [List.mem_singleton.1 hb]
    trivial
  · cases call <;> trivial
  · intro name hc
    obtain rfl : call = .ancestors name := hc
    exact .begin files s₀ name

/-- A branch takes its turn out of a call that is between turns. -/
theorem Flight.Steady.resting (h : fl.Steady files s₀) (hs : s₀.Shows files s) {branch : Branch}
    (hb : fl.branches[b]? = some branch) :
    Instant.Steady files s₀ b ⟨s, fl, .resting branch⟩ := by
  have hlt : b < fl.branches.length := (List.getElem?_eq_some_iff.1 hb).1
  refine ⟨⟨hs, h.branches, h.branches branch (List.mem_of_getElem? hb)⟩, hlt, ?_⟩
  rw [← Flight.seeks_setBranch hlt, Flight.setBranch_self hb]
  exact h.seeks

theorem Pool.Steady.begin (h : p.Steady files s₀) (call : Call) :
    (p.begin call).Steady files s₀ := by
  have hm := Instant.steady_begin h.session call
  have hx : s₀.Shows files (p.session.beginCall call).1 ∧
      (p.session.beginCall call).2.Steady files s₀ := by
    rcases p.session.beginCall_endsIn files call with hx | ⟨path, rfl, hx⟩
    · exact hm.endsIn hx
    · rw [hx]
      exact ⟨h.session, hm.faithful.branches, fun _ hc => nomatch hc⟩
  refine ⟨hx.1, fun fl hfl => ?_⟩
  rcases List.mem_append.1 hfl with hfl | hfl
  · exact h.flights fl hfl
  · rw [List.mem_singleton.1 hfl]
    exact hx.2

theorem Pool.Steady.turn? {p' : Pool} {turn : Turn} {place : Place} (h : p.Steady files s₀)
    (ht : p.turn? files turn place = some p') : p'.Steady files s₀ := by
  obtain ⟨fl, branch, next, hf, hb, hx, rfl⟩ := Pool.turn?_endsIn ht
  have hfl := h.flights fl (List.mem_of_getElem? hf)
  obtain ⟨hs, hn⟩ := (hfl.resting h.session hb).endsIn hx
  refine ⟨hs, fun other ho => ?_⟩
  rcases List.mem_or_eq_of_mem_set ho with ho | rfl
  · exact h.flights other ho
  · exact hn

/-- Whatever calls do while no file changes and no event comes, every search stays under way. -/
theorem Pool.Steady.step {w : World} {a : Act} (h : w.pool.Steady w.files s₀) (ha : a.isCall) :
    (w.step a).files = w.files ∧ (w.step a).pool.Steady w.files s₀ := by
  cases a with
  | begin call => exact ⟨rfl, h.begin call⟩
  | turn turn place =>
    refine ⟨rfl, ?_⟩
    cases ht : w.pool.turn? w.files turn place with
    | none => simpa only [World.step, ht, Option.getD_none] using h
    | some p' => simpa only [World.step, ht, Option.getD_some] using h.turn? ht
  | ask call => exact ⟨rfl, h.session.call call, h.flights⟩
  | _ => simp [Act.isCall] at ha

theorem Pool.Steady.run {w : World} (h : w.pool.Steady w.files s₀) {acts : List Act}
    (ha : ∀ a ∈ acts, a.isCall) :
    (w.run acts).files = w.files ∧ (w.run acts).pool.Steady w.files s₀ := by
  induction acts generalizing w with
  | nil => exact ⟨rfl, h⟩
  | cons a acts ih =>
    obtain ⟨hf, hp⟩ := h.step (ha a List.mem_cons_self)
    rw [← hf] at hp
    obtain ⟨hf', hp'⟩ := ih hp fun a hm => ha a (List.mem_cons_of_mem _ hm)
    rw [hf] at hf' hp'
    exact ⟨hf', hp'⟩

theorem flatMap_of_finished {α : Type} {branches : List Branch}
    (h : ∀ branch ∈ branches, branch = .finished) {f : Branch → List α} (hf : f .finished = []) :
    branches.flatMap f = [] := by
  rw [List.flatMap_eq_nil_iff]
  intro branch hm
  rw [h branch hm, hf]

/-- A search whose branches have all come to their end has nothing in hand. -/
theorem Flight.Steady.underway (h : fl.Steady files s₀) (hc : fl.call = .ancestors name)
    (hb : ∀ branch ∈ fl.branches, branch = .finished) :
    s₀.Underway files name fl.visited fl.records [] [] [] := by
  have hu := h.seeks name hc
  rw [flatMap_of_finished hb rfl, flatMap_of_finished hb rfl, flatMap_of_finished hb rfl] at hu
  exact hu

/-- A search that is answered has all its branches at their end. -/
theorem Flight.finished_of_answer (hc : fl.call = .ancestors name) {records : List Record}
    (ha : fl.answer? = some (.records records)) :
    (∀ branch ∈ fl.branches, branch = .finished) ∧ fl.records = records := by
  rw [Flight.answer?, hc] at ha
  simp only [Option.ite_none_right_eq_some, Option.some.injEq, Answer.records.injEq] at ha
  exact ⟨fun branch hm => by simpa using List.all_eq_true.1 ha.1 branch hm, ha.2⟩

theorem Flight.Steady.answer (h : fl.Steady files s₀) (hc : fl.call = .ancestors name)
    {records : List Record} (ha : fl.answer? = some (.records records)) :
    records.Perm (s₀.ancestors files name).1 := by
  obtain ⟨hb, rfl⟩ := Flight.finished_of_answer hc ha
  exact (h.underway hc hb).records_perm

end Ancestry
