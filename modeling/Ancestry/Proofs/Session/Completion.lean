import Ancestry.Proofs.Session.Concurrency
import Mathlib.Algebra.GroupWithZero.Nat

/-!
Calls come to their end. Each turn lowers the cost of what is in flight: a file costs most before it
is visited, and a branch costs the less the further it has come, with the files that it hands on paid
for in advance. As long as a branch is not at its end, some turn is possible, since a read that waits
for a slot waits for a read that can end.
-/

namespace Ancestry
variable {files : Files} {s₀ s : Session} {name path : String} {fl : Flight} {p p' : Pool} {b : Nat}

theorem sum_map_set {α : Type} (f : α → Nat) {l : List α} {k : Nat} {old : α}
    (ho : l[k]? = some old) (new : α) :
    ((l.set k new).map f).sum + f old = (l.map f).sum + f new := by
  induction l generalizing k with
  | nil => simp at ho
  | cons x l ih =>
    cases k with
    | zero =>
      obtain rfl : x = old := by simpa using ho
      simp only [List.set_cons_zero, List.map_cons, List.sum_cons]
      omega
    | succ k =>
      have h := ih (k := k) (by simpa using ho)
      simp only [List.set_cons_succ, List.map_cons, List.sum_cons]
      omega

theorem sum_map_eq {α : Type} {f : α → Nat} {c : Nat} (h : ∀ x, f x = c) (l : List α) :
    (l.map f).sum = l.length * c := by
  rw [funext h, List.map_const', List.sum_replicate_nat]

namespace Session

theorem shownImporters_sublist_known (files : Files) (s : Session) (name : String) :
    (s.shownImporters files name).Sublist s.known := by
  unfold shownImporters known
  cases h : s.importers.lists.get? name with
  | none =>
    rw [Option.getD_none]
    exact List.filter_sublist.trans (List.sublist_append_left _ _)
  | some found =>
    have hm : found ∈ s.importers.lists.entries.map (·.2) :=
      List.mem_map_of_mem (Table.mem_of_get? h)
    rw [Option.getD_some, List.flatMap_def]
    exact (List.sublist_flatten_of_mem hm).trans (List.sublist_append_right _ _)

end Session

def Read.cost (r : Read) : Nat :=
  match r.state with
  | .waiting => 2
  | .holding _ => 1

def Cell.cost : Cell → Nat
  | idle _ => 3
  | reading r => r.cost
  | settled _ _ => 0

/-- What a branch costs where a search may meet `n` files. -/
def Branch.cost (n : Nat) : Branch → Nat
  | visiting _ => 1
  | reading r => r.cost
  | looking r => r.cost + (4 * n + 4)
  | scanning scan => (scan.cells.map Cell.cost).sum + (n + 2)
  | finished => 0

def Stage.cost (n : Nat) : Stage → Nat
  | resting branch => branch.cost n
  | opening _ => 3
  | entering _ => 4 * n + 7
  | reporting _ _ => 4 * n + 4
  | exploring _ => 4 * n + 3
  | ascending found => found.length + 1

/-- How many of the files that a search may meet are not visited. -/
def Flight.unvisited (known : List String) (fl : Flight) : Nat :=
  (known.filter (· ∉ fl.visited)).length

/-- What is left of a call: its branches, one of them at a stage and the others at rest, and the
files that it may still visit. -/
def Flight.cost (known : List String) (fl : Flight) (stage : Stage) (others : List Branch) : Nat :=
  stage.cost known.length + ((others.map (Branch.cost known.length)).sum +
    (4 * known.length + 7) * fl.unvisited known)

def Instant.cost (known : List String) (b : Nat) (m : Instant) : Nat :=
  m.flight.cost known m.stage (m.flight.finish b).branches

def Pool.cost (known : List String) (p : Pool) : Nat :=
  (p.flights.map fun fl => fl.cost known (.resting .finished) fl.branches).sum

theorem Read.cost_of_waiting {r : Read} (h : r.state = .waiting) : r.cost = 2 := by
  rw [cost, h]

theorem Read.cost_of_holding {r : Read} {text? : Option String} (h : r.state = .holding text?) :
    r.cost = 1 := by
  rw [cost, h]

theorem Read.cost_take (files : Files) {r : Read} (h : r.state = .waiting) (s : Session) :
    (s.takeText files r).2.cost < r.cost := by
  obtain ⟨stats, hx⟩ := s.takeText_eq files r
  rw [hx, cost_of_waiting h]
  exact Nat.one_lt_two

theorem Cell.cost_next {s' : Session} {old new : Cell} (hn : old.Next files name s s' new) :
    new.cost < old.cost := by
  cases hn with
  | known ht => exact Nat.zero_lt_succ _
  | ask ht => exact Nat.lt_succ_self 2
  | take hr => exact Read.cost_take files hr s
  | settle hr =>
    rw [Cell.cost, Cell.cost, Read.cost_of_holding hr]
    exact Nat.zero_lt_one

/-- A file that is visited for the first time is one less to visit. -/
theorem Flight.unvisited_enter {known : List String} (hk : path ∈ known)
    (hv : path ∉ fl.visited) :
    unvisited known { fl with visited := path :: fl.visited } < fl.unvisited known := by
  have hm : path ∈ known.filter (· ∉ fl.visited) := by simp [hk, hv]
  have he : known.filter (· ∉ path :: fl.visited) =
      (known.filter (· ∉ fl.visited)).filter (· ≠ path) := by
    simp [List.filter_filter, not_or]
  rw [unvisited, unvisited, he]
  exact List.length_filter_lt_length_iff_exists.2 ⟨path, hm, by simp⟩

theorem Flight.cost_setBranch (known : List String) (hb : b < fl.branches.length)
    (branch : Branch) :
    (fl.setBranch b branch).cost known (.resting .finished) (fl.setBranch b branch).branches =
      fl.cost known (.resting branch) (fl.finish b).branches := by
  have hf : (fl.branches.set b Branch.finished)[b]? = some .finished :=
    List.getElem?_set_self hb
  have h := sum_map_set (Branch.cost known.length) hf branch
  have hz : Branch.cost known.length .finished = 0 := rfl
  rw [List.set_set, hz, Nat.add_zero] at h
  change 0 + (((fl.branches.set b branch).map _).sum + _ * fl.unvisited known) =
    branch.cost known.length + (((fl.branches.set b .finished).map _).sum + _)
  rw [h]
  omega

/-- While the other branches and the files visited stay, the stage decides. -/
theorem Instant.cost_lt_of_stage {known : List String} {s s' : Session} {fl fl' : Flight}
    {stage stage' : Stage} (hb : fl'.branches = fl.branches) (hv : fl'.visited = fl.visited)
    (h : stage'.cost known.length < stage.cost known.length) :
    Instant.cost known b ⟨s', fl', stage'⟩ < Instant.cost known b ⟨s, fl, stage⟩ := by
  simp only [Instant.cost, Flight.cost, Flight.finish, Flight.setBranch, Flight.unvisited, hb, hv]
  exact Nat.add_lt_add_right h _

/-- Whatever follows on an instant is nearer to the end. -/
theorem Instant.cost_next {m m' : Instant} (h : m.Steady files s₀ b) (hn : m.Next files m') :
    m'.cost s₀.known b < m.cost s₀.known b := by
  obtain ⟨hm, hb, -⟩ := h
  have hlen : ∀ n, (s₀.shownImporters files n).length ≤ s₀.known.length :=
    fun n => (s₀.shownImporters_sublist_known files n).length_le
  cases hn with
  | skip hv => exact cost_lt_of_stage rfl rfl Nat.zero_lt_one
  | enter hv =>
    rename_i s fl path
    obtain ⟨n, hi⟩ := hm.stage
    -- The file was among those to visit, which pays for its visit.
    have hu := Flight.unvisited_enter ((s₀.shownImporters_sublist_known files n).subset hi) hv
    have hc := Nat.mul_le_mul_left (4 * s₀.known.length + 7) hu
    rw [Nat.mul_succ] at hc
    have hf : ({ fl with visited := path :: fl.visited }.finish b).branches =
      (fl.finish b).branches := rfl
    simp only [Instant.cost, Flight.cost, Stage.cost, Branch.cost, hf]
    omega
  | textKnown ht => exact cost_lt_of_stage rfl rfl (Nat.zero_lt_succ _)
  | askText ht => exact cost_lt_of_stage rfl rfl (Nat.lt_succ_self 2)
  | takeText hr =>
    rename_i s fl r
    exact cost_lt_of_stage rfl rfl (Read.cost_take files hr s)
  | endText hr =>
    refine cost_lt_of_stage rfl rfl ?_
    simp only [Stage.cost, Branch.cost, Read.cost_of_holding hr]
    omega
  | callsKnown hc =>
    refine cost_lt_of_stage rfl rfl ?_
    simp only [Stage.cost]
    omega
  | callsOfKnown hc ht =>
    refine cost_lt_of_stage rfl rfl ?_
    simp only [Stage.cost]
    omega
  | askCalls hc ht =>
    refine cost_lt_of_stage rfl rfl ?_
    simp only [Stage.cost, Branch.cost, Read.cost, Contents.request]
    omega
  | takeCalls hr =>
    rename_i s fl r
    exact cost_lt_of_stage rfl rfl (Nat.add_lt_add_right (Read.cost_take files hr s) _)
  | endCalls hr =>
    refine cost_lt_of_stage rfl rfl ?_
    simp only [Stage.cost, Branch.cost, Read.cost_of_holding hr]
    omega
  | tell hc => exact cost_lt_of_stage rfl rfl (Nat.zero_lt_succ _)
  | report hc => exact cost_lt_of_stage rfl rfl (Nat.lt_succ_self _)
  | listKnown hl =>
    rename_i s fl name found
    have hf := hlen name
    rw [hm.session.shownImporters_of_some hl] at hf
    refine cost_lt_of_stage rfl rfl ?_
    simp only [Stage.cost]
    omega
  | scan hl =>
    rename_i s fl name
    have hc : s.candidates = s₀.candidates := hm.session.candidates
    have hk : s₀.candidates.length ≤ s₀.known.length :=
      (List.sublist_append_left _ _).length_le
    have hi : ((s.candidates.map Cell.idle).map Cell.cost).sum = s₀.candidates.length * 3 := by
      rw [hc, List.map_map]
      exact sum_map_eq (fun _ => rfl) s₀.candidates
    refine cost_lt_of_stage rfl rfl ?_
    simp only [Stage.cost, Branch.cost, hi]
    omega
  | cell ho hn =>
    rename_i s s' fl scan k old new
    have hc := Cell.cost_next hn
    have hset := sum_map_set Cell.cost ho new
    refine cost_lt_of_stage rfl rfl ?_
    simp only [Stage.cost, Branch.cost]
    omega
  | gather hc =>
    rename_i s fl scan
    have hf := hlen scan.name
    refine cost_lt_of_stage rfl rfl ?_
    simp only [Stage.cost, Branch.cost]
    rw [hm.stage.settle_fst hc hm.session]
    omega
  | answer hc => exact cost_lt_of_stage rfl rfl (Nat.zero_lt_succ _)
  | spread hc =>
    rename_i s fl found
    have hsum : ((found.map Branch.visiting).map (Branch.cost s₀.known.length)).sum =
        found.length * 1 := by
      rw [List.map_map]
      exact sum_map_eq (fun _ => rfl) found
    have hu : Flight.unvisited s₀.known
        { fl with branches := fl.branches ++ found.map .visiting } = fl.unvisited s₀.known := rfl
    simp only [Instant.cost, Flight.cost, Stage.cost, Branch.cost, Flight.finish_spread hb, hu,
      List.map_append, List.sum_append, hsum]
    omega

/-- A turn comes nearer to the end by at least one instant. -/
theorem Instant.Steady.cost_endsIn {m : Instant} {x : Session × Flight} (h : m.Steady files s₀ b)
    (hx : m.EndsIn files b x) :
    x.2.cost s₀.known (.resting .finished) x.2.branches < m.cost s₀.known b := by
  obtain ⟨s, fl, branch, ht, rfl⟩ := hx
  have hc : ∀ {m'}, Relation.TransGen (Instant.Next files) m m' →
      m'.Steady files s₀ b ∧ m'.cost s₀.known b < m.cost s₀.known b := by
    intro m' ht
    induction ht with
    | single hn => exact ⟨h.next hn, Instant.cost_next h hn⟩
    | tail _ hn ih => exact ⟨ih.1.next hn, Nat.lt_trans (Instant.cost_next ih.1 hn) ih.2⟩
  obtain ⟨hs, hlt⟩ := hc ht
  rw [Flight.cost_setBranch s₀.known hs.branch]
  exact hlt

theorem Pool.Steady.cost_turn? {turn : Turn} {place : Place} (h : p.Steady files s₀)
    (ht : p.turn? files turn place = some p') : p'.cost s₀.known < p.cost s₀.known := by
  obtain ⟨fl, branch, next, hf, hb, hx, rfl⟩ := Pool.turn?_endsIn ht
  have hfl := h.flights fl (List.mem_of_getElem? hf)
  have hlt := (hfl.resting h.session hb).cost_endsIn hx
  have hlen : place.branch < fl.branches.length := (List.getElem?_eq_some_iff.1 hb).1
  have he := Flight.cost_setBranch s₀.known hlen branch
  rw [Flight.setBranch_self hb] at he
  rw [Instant.cost, ← he] at hlt
  have hset := sum_map_set (fun fl => fl.cost s₀.known (.resting .finished) fl.branches) hf next.2
  change ((p.flights.set place.flight next.2).map _).sum < _
  rw [Pool.cost]
  omega

/-- Turns one after the other, if each of them is possible. -/
def Pool.turns? (files : Files) : List (Turn × Place) → Pool → Option Pool
  | [], p => some p
  | (turn, place) :: turns, p => (p.turn? files turn place).bind (turns? files turns)

theorem Pool.Steady.length_turns?_le (h : p.Steady files s₀) {turns : List (Turn × Place)}
    (ht : p.turns? files turns = some p') : turns.length ≤ p.cost s₀.known := by
  induction turns generalizing p with
  | nil => exact Nat.zero_le _
  | cons t turns ih =>
    obtain ⟨q, hq, ht⟩ := Option.bind_eq_some_iff.1 ht
    have hle := ih (h.turn? hq) ht
    have hlt := h.cost_turn? hq
    rw [List.length_cons]
    omega

/-- No turn is possible. -/
def Pool.Still (files : Files) (p : Pool) : Prop :=
  ∀ turn place, p.turn? files turn place = none

namespace Pool

/-- Where a read can be: a branch of its own, or a cell of a scan. -/
theorem read?_cases {place : Place} {r : Read} (h : p.read? place = some r) :
    ∃ fl branch, p.flights[place.flight]? = some fl ∧ fl.branches[place.branch]? = some branch ∧
      ((place.cell? = none ∧ (branch = .reading r ∨ branch = .looking r)) ∨
        ∃ scan k, place.cell? = some k ∧ branch = .scanning scan ∧
          scan.cells[k]? = some (.reading r)) := by
  have hb : ∀ {branch}, p.branch? place = some branch → ∃ fl,
      p.flights[place.flight]? = some fl ∧ fl.branches[place.branch]? = some branch := by
    intro branch hb
    simpa only [Pool.branch?, bind, Option.bind_eq_some_iff] using hb
  unfold read? at h
  split at h
  · rename_i r' hbr hc
    obtain ⟨fl, hfl, hbr⟩ := hb hbr
    cases h
    exact ⟨fl, _, hfl, hbr, .inl ⟨hc, .inl rfl⟩⟩
  · rename_i r' hbr hc
    obtain ⟨fl, hfl, hbr⟩ := hb hbr
    cases h
    exact ⟨fl, _, hfl, hbr, .inl ⟨hc, .inr rfl⟩⟩
  · rename_i scan k hbr hc
    obtain ⟨fl, hfl, hbr⟩ := hb hbr
    split at h
    · rename_i r' hk
      cases h
      exact ⟨fl, _, hfl, hbr, .inr ⟨scan, k, hc, rfl, hk⟩⟩
    · cases h
  · cases h

theorem exists_place {r : Read} (h : r ∈ p.reads) : ∃ place, p.read? place = some r := by
  simp only [reads, List.mem_flatMap] at h
  obtain ⟨fl, hfl, branch, hbr, hr⟩ := h
  obtain ⟨i, hi⟩ := List.mem_iff_getElem?.1 hfl
  obtain ⟨b, hb⟩ := List.mem_iff_getElem?.1 hbr
  have hp : ∀ c, p.branch? ⟨i, b, c⟩ = some branch := by
    intro c
    simp only [branch?, hi, hb, bind, Option.bind_some]
  cases branch with
  | visiting path => simp [Branch.reads] at hr
  | reading r' =>
    obtain rfl : r = r' := by simpa [Branch.reads] using hr
    exact ⟨⟨i, b, none⟩, by rw [read?, hp]⟩
  | looking r' =>
    obtain rfl : r = r' := by simpa [Branch.reads] using hr
    exact ⟨⟨i, b, none⟩, by rw [read?, hp]⟩
  | scanning scan =>
    obtain ⟨cell, hc, he⟩ := List.mem_filterMap.1 hr
    cases cell with
    | reading r' =>
      cases he
      obtain ⟨k, hk⟩ := List.mem_iff_getElem?.1 hc
      exact ⟨⟨i, b, some k⟩, by simp only [read?, hp, hk]⟩
    | idle path => cases he
    | settled path imports => cases he
  | finished => simp [Branch.reads] at hr

namespace Still
variable {place : Place} {r : Read}

/-- A read that has its text could end. -/
theorem waiting (h : p.Still files) (hr : p.read? place = some r) : r.state = .waiting := by
  cases hx : r.state with
  | waiting => rfl
  | holding text? =>
    have ht := h .complete place
    obtain ⟨fl, branch, hfl, hbr, ⟨hc, rfl | rfl⟩ | ⟨scan, k, hc, rfl, hk⟩⟩ := read?_cases hr
    · simp [turn?, hfl, hbr, hc, hx] at ht
    · simp [turn?, hfl, hbr, hc, hx] at ht
    · simp [turn?, hfl, hbr, hc, hk, hx] at ht

/-- A read that waits could take a slot. -/
theorem slots_le (h : p.Still files) (hr : p.read? place = some r) : p.slots ≤ p.holders := by
  have hw := h.waiting hr
  have ht := h .take place
  obtain ⟨fl, branch, hfl, hbr, ⟨hc, rfl | rfl⟩ | ⟨scan, k, hc, rfl, hk⟩⟩ := read?_cases hr
  · simpa [turn?, hfl, hbr, hc, hw] using ht
  · simpa [turn?, hfl, hbr, hc, hw] using ht
  · simpa [turn?, hfl, hbr, hc, hk, hw] using ht

theorem reads_eq_nil (h : p.Still files) (hs : 0 < p.slots) : p.reads = [] := by
  rw [List.eq_nil_iff_forall_not_mem]
  intro r hr
  obtain ⟨place, hp⟩ := exists_place hr
  have hh : 0 < p.holders := Nat.lt_of_lt_of_le hs (h.slots_le hp)
  -- The slots are held by reads that have their text.
  obtain ⟨r', hr', hne⟩ := List.countP_pos_iff.1 hh
  obtain ⟨place', hp'⟩ := exists_place hr'
  simp [h.waiting hp'] at hne

/-- Where no turn is possible, all is at its end. -/
theorem finished (h : p.Still files) (hs : 0 < p.slots) (hfl : fl ∈ p.flights) {branch : Branch}
    (hb : branch ∈ fl.branches) : branch = .finished := by
  have hr : branch.reads = [] := by
    have hn := h.reads_eq_nil hs
    simp only [reads, List.flatMap_eq_nil_iff] at hn
    exact hn fl hfl branch hb
  obtain ⟨i, hi⟩ := List.mem_iff_getElem?.1 hfl
  obtain ⟨b, hb⟩ := List.mem_iff_getElem?.1 hb
  cases branch with
  | visiting path => simpa [turn?, hi, hb] using h .start ⟨i, b, none⟩
  | reading r => simp [Branch.reads] at hr
  | looking r => simp [Branch.reads] at hr
  | scanning scan =>
    have hg : scan.isSettled = false := by simpa [turn?, hi, hb] using h .gather ⟨i, b, none⟩
    obtain ⟨cell, hc, hn⟩ : ∃ cell ∈ scan.cells, ¬ cell.isSettled := by
      simpa [Scan.isSettled] using hg
    obtain ⟨k, hk⟩ := List.mem_iff_getElem?.1 hc
    cases cell with
    | idle path => simpa [turn?, hi, hb, hk] using h .start ⟨i, b, some k⟩
    | reading r =>
      have hx := List.filterMap_eq_nil_iff.1 hr _ hc
      cases hx
    | settled path imports => simp [Cell.isSettled] at hn
  | finished => rfl

end Still
end Pool

end Ancestry
