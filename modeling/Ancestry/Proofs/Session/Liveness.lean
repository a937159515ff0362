import Ancestry.Proofs.Session.Dues

/-!
A search that has a session to itself is answered by the schedule, whatever the files, if there is a
slot. The queue holds all that is due, so the search is at its end where the queue is empty; and
each entry that is served takes a turn, or puts the end of a scan off once. The bound of the schedule
is wide enough for both.
-/

namespace Ancestry
variable {files : Files} {s₀ s : Session} {fl fl' : Flight} {slots b k : Nat}
variable {queue : List (Due × Place)}

namespace Pool

theorem turn?_visit {path : String} (hb : fl.branches[b]? = some (.visiting path)) :
    (⟨s, slots, [fl]⟩ : Pool).turn? files .start ⟨0, b, none⟩ =
      some ⟨(s.visit b path fl).1, slots, [(s.visit b path fl).2]⟩ := by
  simp [turn?, hb, update]

theorem turn?_gather {scan : Scan} (hb : fl.branches[b]? = some (.scanning scan))
    (hc : scan.isSettled) :
    (⟨s, slots, [fl]⟩ : Pool).turn? files .gather ⟨0, b, none⟩ =
      some ⟨(s.endScan b scan fl).1, slots, [(s.endScan b scan fl).2]⟩ := by
  simp [turn?, hb, hc, update]

theorem turn?_openCell {scan : Scan} {path : String}
    (hb : fl.branches[b]? = some (.scanning scan)) (hk : scan.cells[k]? = some (.idle path)) :
    (⟨s, slots, [fl]⟩ : Pool).turn? files .start ⟨0, b, some k⟩ =
      some ⟨(s.openCell scan.name path).1, slots,
        [setCell fl b scan k (s.openCell scan.name path).2]⟩ := by
  simp [turn?, hb, hk, update]

/-- While no read has a slot, there are slots. -/
theorem holders_eq_zero (h : ∀ branch ∈ fl.branches, ∀ r ∈ branch.reads, r.state = .waiting) :
    (⟨s, slots, [fl]⟩ : Pool).holders = 0 := by
  rw [holders, List.countP_eq_zero]
  intro r hr
  obtain ⟨branch, hb, hr⟩ : ∃ branch ∈ fl.branches, r ∈ branch.reads := by
    simpa [reads] using hr
  simpa using h branch hb r hr

theorem turn?_takeCalls {r : Read} (hb : fl.branches[b]? = some (.looking r))
    (hr : r.state = .waiting) (hh : (⟨s, slots, [fl]⟩ : Pool).holders < slots) :
    (⟨s, slots, [fl]⟩ : Pool).turn? files .take ⟨0, b, none⟩ =
      some ⟨(s.takeText files r).1, slots,
        [fl.setBranch b (.looking (s.takeText files r).2)]⟩ := by
  simp [turn?, hb, hr, hh, update]

theorem turn?_endCalls {r : Read} {text? : Option String}
    (hb : fl.branches[b]? = some (.looking r)) (hr : r.state = .holding text?) :
    (⟨s, slots, [fl]⟩ : Pool).turn? files .complete ⟨0, b, none⟩ =
      some ⟨(s.endLookUp b r text? fl).1, slots, [(s.endLookUp b r text? fl).2]⟩ := by
  simp [turn?, hb, hr, update]

theorem turn?_takeCell {scan : Scan} {r : Read} (hb : fl.branches[b]? = some (.scanning scan))
    (hk : scan.cells[k]? = some (.reading r)) (hr : r.state = .waiting)
    (hh : (⟨s, slots, [fl]⟩ : Pool).holders < slots) :
    (⟨s, slots, [fl]⟩ : Pool).turn? files .take ⟨0, b, some k⟩ =
      some ⟨(s.takeText files r).1, slots,
        [setCell fl b scan k (.reading (s.takeText files r).2)]⟩ := by
  simp [turn?, hb, hk, hr, hh, update]

theorem turn?_endCell {scan : Scan} {r : Read} {text? : Option String}
    (hb : fl.branches[b]? = some (.scanning scan)) (hk : scan.cells[k]? = some (.reading r))
    (hr : r.state = .holding text?) :
    (⟨s, slots, [fl]⟩ : Pool).turn? files .complete ⟨0, b, some k⟩ =
      some ⟨s.endRead r text?, slots, [setCell fl b scan k
        (.settled r.path (Source.importsName (Contents.textRead text?) scan.name))]⟩ := by
  simp [turn?, hb, hk, hr, update]

theorem setCell_setCell (fl : Flight) (b : Nat) (scan : Scan) (k : Nat) (old new : Cell) :
    setCell (setCell fl b scan k old) b { scan with cells := scan.cells.set k old } k new =
      setCell fl b scan k new := by
  simp only [setCell, Flight.setBranch, List.set_set]

end Pool

namespace Schedule

/-- The schedule of a call that has the pool to itself and waits for nothing but its turns. -/
def solo (slots : Nat) (s : Session) (fl : Flight) (queue : List (Due × Place)) : Schedule :=
  { pool := ⟨s, slots, [fl]⟩, queue, free := slots, holding := false }

variable {place : Place}

theorem acquire_of_none (h : (⟨s, slots, [fl]⟩ : Pool).read? place = none) :
    (solo slots s fl queue).acquire files place = solo slots s fl queue := by
  have h' : (solo slots s fl queue).pool.read? place = none := h
  rw [acquire, h']

/-- A read that finds a slot free has its text at once and ends. -/
theorem acquire_of_some {c : Option Nat} {r : Read} {t t' : Session} {fl₁ fl₂ : Flight}
    (hs : 0 < slots) (h : (⟨s, slots, [fl]⟩ : Pool).read? ⟨0, b, c⟩ = some r)
    (ht : (⟨s, slots, [fl]⟩ : Pool).turn? files .take ⟨0, b, c⟩ = some ⟨t, slots, [fl₁]⟩)
    (hc : (⟨t, slots, [fl₁]⟩ : Pool).turn? files .complete ⟨0, b, c⟩ =
      some ⟨t', slots, [fl₂]⟩) :
    (solo slots s fl queue).acquire files ⟨0, b, c⟩ =
      solo slots t' fl₂ (queue ++ consequences (some fl₁) ⟨t', slots, [fl₂]⟩ ⟨0, b, c⟩) := by
  have hfree : slots - 1 + 1 = slots := Nat.sub_add_cancel hs
  simp [solo, acquire, h, hs, take, Schedule.turn, ht, complete, freeSlot, grantNext, hc, hfree,
    enqueue]

theorem serve_start {c : Option Nat} {t : Session} {fl₁ : Flight}
    (ht : (⟨s, slots, [fl]⟩ : Pool).turn? files .start ⟨0, b, c⟩ = some ⟨t, slots, [fl₁]⟩) :
    (solo slots s fl queue).serve files .start ⟨0, b, c⟩ =
      (solo slots t fl₁ (queue ++ consequences (some fl) ⟨t, slots, [fl₁]⟩ ⟨0, b, c⟩)).acquire
        files ⟨0, b, c⟩ := by
  simp [solo, serve, Schedule.turn, ht, enqueue]

theorem serve_gather {t : Session} {fl₁ : Flight}
    (ht : (⟨s, slots, [fl]⟩ : Pool).turn? files .gather ⟨0, b, none⟩ = some ⟨t, slots, [fl₁]⟩) :
    (solo slots s fl queue).serve files .gather ⟨0, b, none⟩ =
      solo slots t fl₁ (queue ++ consequences (some fl) ⟨t, slots, [fl₁]⟩ ⟨0, b, none⟩) := by
  simp [solo, serve, Schedule.turn, ht, enqueue]

end Schedule

/-- Where importers were asked for there is no read. -/
theorem Rises.read?_eq_none {old : List Branch} (h : Rises b old fl.branches)
    (hb : b < old.length) :
    (⟨s, slots, [fl]⟩ : Pool).read? ⟨0, b, none⟩ = none := by
  cases h with
  | found found h =>
    have hf : fl.branches[b]? = some .finished := by
      rw [h, List.getElem?_append_left (by simpa using hb), List.getElem?_set_self hb]
    simp [Pool.read?, Pool.branch?, hf]
  | scan name epoch paths hp h =>
    have hf : fl.branches[b]? = some (.scanning ⟨name, epoch, paths.map .idle⟩) := by
      rw [h, List.getElem?_set_self hb]
    simp [Pool.read?, Pool.branch?, hf]

namespace Schedule

/-- The provide calls of a file are read, and the importers of its component asked for. -/
theorem acquire_looking (hs : 0 < slots) (hc : fl.call.IsSearch) {r : Read}
    (hb : fl.branches[b]? = some (.looking r)) (hr : r.state = .waiting)
    (hw : ∀ branch ∈ fl.branches, ∀ r ∈ branch.reads, r.state = .waiting)
    (h : (fl.finish b).Tracked queue) :
    ∃ t fl' more, (solo slots s fl queue).acquire files ⟨0, b, none⟩ =
      solo slots t fl' (queue ++ more) ∧ fl'.Tracked (queue ++ more) ∧
        ∀ e ∈ more, e.1 ≠ .joined := by
  have hlt : b < fl.branches.length := (List.getElem?_eq_some_iff.1 hb).1
  let fl₁ := fl.setBranch b (.looking (s.takeText files r).2)
  have hb₁ : fl₁.branches[b]? = some (.looking (s.takeText files r).2) :=
    List.getElem?_set_self hlt
  have hh : (⟨s, slots, [fl]⟩ : Pool).holders < slots := by rwa [Pool.holders_eq_zero hw]
  have hread : (⟨s, slots, [fl]⟩ : Pool).read? ⟨0, b, none⟩ = some r := by
    simp [Pool.read?, Pool.branch?, hb]
  have hfin : (fl₁.finish b).branches = (fl.finish b).branches := List.set_set _
  have hfl : fl₁.call.IsSearch := hc
  have hrise := Session.rises_withCalls (b := b) hfl r.path
    (Contents.callsIn (Contents.textRead (files r.path)))
  rw [acquire_of_some hs hread (Pool.turn?_takeCalls hb hr hh) (Pool.turn?_endCalls hb₁ rfl)]
  obtain ⟨ht, hj⟩ := (h.congr hfin).append ((hrise _).quiet (h.congr hfin).quiet)
    ((hrise _).dues hb₁ (by simp) _)
  exact ⟨_, _, _, rfl, ht, hj⟩

/-- A file is visited. -/
theorem serve_visit (files : Files) (s : Session) {path : String} (hs : 0 < slots)
    (hc : fl.call.IsSearch) (hq : fl.Quiet)
    (hb : fl.branches[b]? = some (.visiting path)) (h : (fl.finish b).Tracked queue) :
    ∃ t fl' more, (solo slots s fl queue).serve files .start ⟨0, b, none⟩ =
      solo slots t fl' (queue ++ more) ∧ fl'.Tracked (queue ++ more) ∧
        ∀ e ∈ more, e.1 ≠ .joined := by
  have hlt : b < fl.branches.length := (List.getElem?_eq_some_iff.1 hb).1
  have hcall : (s.visit b path fl).2.call = fl.call :=
    (Session.visit_endsIn files s hlt path).call_eq
  rw [serve_start (Pool.turn?_visit hb)]
  rcases Session.visit_cases (b := b) hc path s with hr | ⟨r, hr, hbr⟩
  · obtain ⟨ht, hj⟩ := h.append (hr.quiet h.quiet) (hr.dues hb (by simp) (s.visit b path fl).1)
    exact ⟨_, _, _, acquire_of_none (hr.read?_eq_none hlt), ht, hj⟩
  · rw [consequences_looking hb hbr, List.append_nil]
    refine acquire_looking hs ?_ ?_ hr ?_ (h.congr ?_)
    · rw [hcall]
      exact hc
    · rw [hbr, List.getElem?_set_self hlt]
    · intro branch hm r' hr'
      rw [hbr] at hm
      rcases List.mem_or_eq_of_mem_set hm with hm | rfl
      · simp [hq branch hm] at hr'
      · rwa [List.mem_singleton.1 hr']
    · simp [Flight.finish, Flight.setBranch, hbr]

/-- A candidate is read. -/
theorem acquire_cell (files : Files) (s : Session) (queue : List (Due × Place)) (hs : 0 < slots)
    {scan : Scan} {r : Read}
    (hb : fl.branches[b]? = some (.scanning scan)) (hk : scan.cells[k]? = some (.reading r))
    (hr : r.state = .waiting)
    (hw : ∀ branch ∈ fl.branches, ∀ r ∈ branch.reads, r.state = .waiting) :
    ∃ t path imports, (solo slots s fl queue).acquire files ⟨0, b, some k⟩ =
      solo slots t (Pool.setCell fl b scan k (.settled path imports)) (queue ++
        if Scan.isSettled { scan with cells := scan.cells.set k (.settled path imports) } then
          [(.joined, ⟨0, b, none⟩)] else []) := by
  have hlt : b < fl.branches.length := (List.getElem?_eq_some_iff.1 hb).1
  have hlk : k < scan.cells.length := (List.getElem?_eq_some_iff.1 hk).1
  let cell : Cell := .reading (s.takeText files r).2
  have hb₁ : (Pool.setCell fl b scan k cell).branches[b]? =
      some (.scanning { scan with cells := scan.cells.set k cell }) := List.getElem?_set_self hlt
  have hk₁ : (scan.cells.set k cell)[k]? = some cell := List.getElem?_set_self hlk
  have hh : (⟨s, slots, [fl]⟩ : Pool).holders < slots := by rwa [Pool.holders_eq_zero hw]
  have hread : (⟨s, slots, [fl]⟩ : Pool).read? ⟨0, b, some k⟩ = some r := by
    simp [Pool.read?, Pool.branch?, hb, hk]
  have hlk₁ : k < (scan.cells.set k cell).length := by rwa [List.length_set]
  rw [acquire_of_some hs hread (Pool.turn?_takeCell hb hk hr hh) (Pool.turn?_endCell hb₁ hk₁ rfl),
    consequences_setCell hb₁ hlk₁, Pool.setCell_setCell]
  simp only [List.set_set]
  exact ⟨_, _, _, rfl⟩

/-- A candidate is looked at. -/
theorem serve_cell (files : Files) (s : Session) {path : String} (hs : 0 < slots) (hq : fl.Quiet)
    {scan : Scan}
    (hb : fl.branches[b]? = some (.scanning scan)) (hk : scan.cells[k]? = some (.idle path))
    (h : (queue.map Due.served).Perm
      (Scan.dues b { scan with cells := scan.cells.set k (.settled "" false) } ++
        (fl.finish b).dues)) :
    ∃ t fl' more, (solo slots s fl queue).serve files .start ⟨0, b, some k⟩ =
      solo slots t fl' (queue ++ more) ∧ fl'.Tracked (queue ++ more) ∧ more.length ≤ 1 := by
  have hlt : b < fl.branches.length := (List.getElem?_eq_some_iff.1 hb).1
  have hlk : k < scan.cells.length := (List.getElem?_eq_some_iff.1 hk).1
  have hone : ∀ c : Bool,
      (if c then [(Due.joined, (⟨0, b, none⟩ : Place))] else []).length ≤ 1 := by
    intro c
    cases c
    · exact Nat.zero_le 1
    · exact Nat.le_refl 1
  have hset : ∀ cell, (Pool.setCell fl b scan k cell).branches[b]? =
      some (.scanning { scan with cells := scan.cells.set k cell }) :=
    fun cell => List.getElem?_set_self hlt
  have hcell : ∀ cell, (scan.cells.set k cell)[k]? = some cell :=
    fun cell => List.getElem?_set_self hlk
  rw [serve_start (Pool.turn?_openCell hb hk), consequences_setCell hb hlk]
  cases ht : s.contents.texts.get? path with
  | some text =>
    have ho : (s.openCell scan.name path).2 =
        .settled path (Source.importsName text scan.name) := by
      simp only [Session.openCell, ht]
    rw [ho]
    refine ⟨_, _, _, acquire_of_none ?_, tracked_settled hq hb hlk h path _, hone _⟩
    simp [Pool.read?, Pool.branch?, hset, hcell]
  | none =>
    let r : Read := (s.contents.request path).1
    have ho : (s.openCell scan.name path).2 = .reading r := by
      simp only [Session.openCell, ht, r]
    have hu : Scan.isSettled { scan with cells := scan.cells.set k (.reading r) } = false := by
      rw [Scan.isSettled, List.all_eq_false]
      exact ⟨_, List.mem_set hlk _, by simp [Cell.isSettled]⟩
    have hw : ∀ branch ∈ (Pool.setCell fl b scan k (.reading r)).branches, ∀ r ∈ branch.reads,
        r.state = .waiting := by
      intro branch hm r' hr'
      rcases List.mem_or_eq_of_mem_set hm with hm | rfl
      · simp [hq branch hm] at hr'
      · obtain ⟨cell, hc, he⟩ := List.mem_filterMap.1 hr'
        rcases List.mem_or_eq_of_mem_set hc with hc | rfl
        · have hn := List.filterMap_eq_nil_iff.1 (hq _ (List.mem_of_getElem? hb)) cell hc
          rw [hn] at he
          cases he
        · cases he
          rfl
    rw [ho, hu, if_neg Bool.false_ne_true, List.append_nil]
    obtain ⟨t, path', imports, ha⟩ := acquire_cell files _ queue hs (hset _) (hcell _) rfl hw
    rw [ha, Pool.setCell_setCell]
    simp only [List.set_set]
    exact ⟨_, _, _, rfl, tracked_settled hq hb hlk h path' imports, hone _⟩

/-- A scan ends. -/
theorem serve_scan (files : Files) (s : Session) (hc : fl.call.IsSearch) {scan : Scan}
    (hb : fl.branches[b]? = some (.scanning scan)) (hs : scan.isSettled)
    (h : (fl.finish b).Tracked queue) :
    ∃ t fl' more, (solo slots s fl queue).serve files .gather ⟨0, b, none⟩ =
      solo slots t fl' (queue ++ more) ∧ fl'.Tracked (queue ++ more) ∧
        ∀ e ∈ more, e.1 ≠ .joined := by
  obtain ⟨found, hf⟩ := Session.exists_endScan (b := b) hc scan s
  have hr : Rises b fl.branches (s.endScan b scan fl).2.branches := .found found hf
  rw [serve_gather (Pool.turn?_gather hb hs)]
  obtain ⟨ht, hj⟩ := h.append (hr.quiet h.quiet)
    (.of_eq (Flight.dues_found hf hb (s.endScan b scan fl).1))
  exact ⟨_, _, _, rfl, ht, hj⟩

theorem le_bound (d : Schedule) :
    (d.pool.flights.length + 1) * (d.pool.session.known.length + 2) *
      (8 * d.pool.session.known.length + 24) ≤ d.bound := by
  simp only [bound]
  refine Nat.mul_le_mul (Nat.mul_le_mul_left _ ?_) ?_ <;> omega

/-- What a schedule may still have to serve: for each turn that is left an entry and an end of a
scan that is put off, and each of those that are put off already. -/
def work (known : List String) (d : Schedule) : Nat :=
  2 * d.pool.cost known + d.queue.countP (·.1 = .joined)

/-- An entry that takes a turn brings the call nearer to its end. -/
theorem cost_serve_start (queue : List (Due × Place)) {p : Pool} {c : Option Nat}
    (hp : (⟨s, slots, [fl]⟩ : Pool).Steady files s₀)
    (ht : (⟨s, slots, [fl]⟩ : Pool).turn? files .start ⟨0, b, c⟩ = some p) :
    ((solo slots s fl queue).serve files .start ⟨0, b, c⟩).pool.cost s₀.known <
      (⟨s, slots, [fl]⟩ : Pool).cost s₀.known := by
  obtain ⟨t, fl', rfl, -⟩ := (Pool.reaches_of_turn? ht).solo
  rw [serve_start ht]
  have hr := reaches_acquire files ⟨0, b, c⟩ (solo slots t fl' (queue ++
    consequences (some fl) ⟨t, slots, [fl']⟩ ⟨0, b, c⟩))
  exact Nat.lt_of_le_of_lt ((hp.turn? ht).reaches hr).2 (hp.cost_turn? ht)

theorem cost_serve_gather (queue : List (Due × Place)) {p : Pool}
    (hp : (⟨s, slots, [fl]⟩ : Pool).Steady files s₀)
    (ht : (⟨s, slots, [fl]⟩ : Pool).turn? files .gather ⟨0, b, none⟩ = some p) :
    ((solo slots s fl queue).serve files .gather ⟨0, b, none⟩).pool.cost s₀.known <
      (⟨s, slots, [fl]⟩ : Pool).cost s₀.known := by
  obtain ⟨t, fl', rfl, -⟩ := (Pool.reaches_of_turn? ht).solo
  rw [serve_gather ht]
  exact hp.cost_turn? ht

theorem countP_joined_of_ne {more : List (Due × Place)} (h : ∀ e ∈ more, e.1 ≠ .joined) :
    more.countP (·.1 = .joined) ≤ 1 := by
  rw [List.countP_eq_zero.2 (by simpa using h)]
  exact Nat.zero_le 1

/-- Whatever is due, serving it leaves all that is due in the queue, and less to serve. -/
theorem serve_tracked {due : Due} {place : Place} (hs : 0 < slots) (hc : fl.call.IsSearch)
    (hp : (⟨s, slots, [fl]⟩ : Pool).Steady files s₀) (h : fl.Tracked ((due, place) :: queue)) :
    ∃ t fl' queue', (solo slots s fl queue).serve files due place = solo slots t fl' queue' ∧
      fl'.Tracked queue' ∧ (solo slots t fl' queue').work s₀.known <
        (solo slots s fl ((due, place) :: queue)).work s₀.known := by
  have hd := h.dues
  rw [List.map_cons] at hd
  obtain ⟨b, branch, hb, he⟩ := Flight.exists_branch (hd.mem_iff.1 List.mem_cons_self)
  have hbranch := Flight.dues_perm hb
  -- A turn pays for the entry that took it and for the end of a scan that it brings about.
  have hwork : ∀ {t fl' more}, due ≠ .joined →
      (⟨t, slots, [fl']⟩ : Pool).cost s₀.known < (⟨s, slots, [fl]⟩ : Pool).cost s₀.known →
      more.countP (·.1 = Due.joined) ≤ 1 → (solo slots t fl' (queue ++ more)).work s₀.known <
        (solo slots s fl ((due, place) :: queue)).work s₀.known := by
    intro t fl' more hj hlt hm
    simp only [work, solo, List.countP_append, List.countP_cons]
    omega
  obtain ⟨path, rfl, hx⟩ | ⟨scan, k, path, rfl, hk, hx⟩ | ⟨scan, rfl, hset, hx⟩ :=
    Branch.dues_cases he
  · cases Due.eq_of_served_start hx
    have hrest : (fl.finish b).Tracked queue := ⟨h.quiet.finish b, (hd.trans hbranch).cons_inv⟩
    obtain ⟨t, fl', more, hserve, ht, hj⟩ :=
      serve_visit files s hs hc h.quiet hb hrest
    have hlt := cost_serve_start queue hp (Pool.turn?_visit hb)
    rw [hserve] at hlt
    exact ⟨t, fl', _, hserve, ht, hwork (by decide) hlt (countP_joined_of_ne hj)⟩
  · cases Due.eq_of_served_start hx
    have hu : scan.isSettled = false := by
      rw [Scan.isSettled, List.all_eq_false]
      exact ⟨_, List.mem_of_getElem? hk, by simp [Cell.isSettled]⟩
    rw [Branch.dues, hu, if_neg Bool.false_ne_true, List.append_nil] at hbranch
    have hrest := (hd.trans (hbranch.trans ((Scan.dues_of_idle hk).append_right _))).cons_inv
    obtain ⟨t, fl', more, hserve, ht, hm⟩ :=
      serve_cell files s hs h.quiet hb hk hrest
    have hlt := cost_serve_start queue hp (Pool.turn?_openCell hb hk)
    rw [hserve] at hlt
    exact ⟨t, fl', _, hserve, ht, hwork (by decide) hlt (Nat.le_trans List.countP_le_length hm)⟩
  · rw [Branch.dues, Scan.dues_of_isSettled hset, if_pos hset] at hbranch
    rcases Due.eq_of_served_gather hx with hx | hx
    · cases hx
      have hrest : (fl.finish b).Tracked queue :=
        ⟨h.quiet.finish b, (hd.trans hbranch).cons_inv⟩
      obtain ⟨t, fl', more, hserve, ht, hj⟩ := serve_scan files s hc hb hset hrest
      have hlt := cost_serve_gather queue hp (Pool.turn?_gather hb hset)
      rw [hserve] at hlt
      exact ⟨t, fl', _, hserve, ht, hwork (by decide) hlt (countP_joined_of_ne hj)⟩
    · -- The end of the scan is put off, and comes up behind what is due already.
      cases hx
      refine ⟨s, fl, queue ++ [(.gather, ⟨0, b, none⟩)], rfl, ⟨h.quiet, ?_⟩, ?_⟩
      · rw [List.map_append]
        exact List.perm_append_comm.trans hd
      · simp [work, solo, List.countP_append]

/-- A search that has the pool to itself is served until nothing is due, if there is a slot. -/
theorem drain_tracked (hs : 0 < slots) (hc : fl.call.IsSearch)
    (hp : (⟨s, slots, [fl]⟩ : Pool).Steady files s₀) (h : fl.Tracked queue) {n : Nat}
    (hn : (solo slots s fl queue).work s₀.known ≤ n) :
    ∃ t fl', (solo slots s fl queue).drain files n = solo slots t fl' [] ∧ fl'.Tracked [] ∧
      fl'.call = fl.call := by
  induction n generalizing s fl queue with
  | zero =>
    cases queue with
    | nil => exact ⟨s, fl, rfl, h, rfl⟩
    | cons e queue =>
      obtain ⟨t, fl', queue', -, -, hlt⟩ := serve_tracked hs hc hp h
      exact absurd (Nat.lt_of_lt_of_le hlt hn) (Nat.not_lt_zero _)
  | succ n ih =>
    cases queue with
    | nil => exact ⟨s, fl, rfl, h, rfl⟩
    | cons e queue =>
      obtain ⟨due, place⟩ := e
      obtain ⟨t, fl', queue', hserve, ht, hlt⟩ := serve_tracked hs hc hp h
      have hr := reaches_serve files place (solo slots s fl queue) due
      obtain ⟨u, fl'', hu, hcall⟩ := hr.solo
      rw [hserve] at hr hu
      cases hu
      obtain ⟨v, last, hv, hl, hlc⟩ := ih (hcall ▸ hc) (hp.reaches hr).1 ht (by omega)
      refine ⟨v, last, ?_, hl, hlc.trans hcall⟩
      rw [← hv, ← hserve]
      rfl

end Schedule

theorem Table.erase_of_get?_eq_none {α : Type} {t : Table α} {key : String}
    (h : t.get? key = none) : t.erase key = t := by
  obtain ⟨entries⟩ := t
  have hn : ∀ e ∈ entries, e.1 ≠ key := by
    intro e he hk
    have hne := List.lookup_eq_none_iff.1 h e he
    simp [hk] at hne
  rw [erase, Table.mk.injEq, List.filter_eq_self]
  simpa using hn

namespace Session
variable {call : Call}

theorem rises_beginCall (hc : call.IsSearch) (s : Session) :
    Rises 0 [.finished] (s.beginCall call).2.branches := by
  let fl : Flight := { call }
  have hfl : fl.call.IsSearch := hc
  cases call with
  | ancestors name => exact rises_explore hfl name s
  | ancestorsOfFile path =>
    simp only [beginCall]
    split
    · exact rises_explore hfl _ s
    · exact .found [] rfl
  | _ => exact hc.elim

/-- A scan of no candidates makes no file known. -/
theorem length_known_explore (b : Nat) (name : String) (s : Session) :
    (s.explore b name fl).1.known.length = s.known.length := by
  unfold explore
  split
  · rfl
  · rename_i hl
    simp only
    split
    · simp only [Importers.settle, if_true, Importers.countMiss, known, Table.insert,
        Table.erase_of_get?_eq_none hl, List.flatMap_cons, List.nil_append]
    · rfl

theorem length_known_beginCall (hc : call.IsSearch) (s : Session) :
    (s.beginCall call).1.known.length = s.known.length := by
  cases call with
  | ancestors name => exact length_known_explore 0 name s
  | ancestorsOfFile path =>
    simp only [beginCall]
    split
    · exact length_known_explore 0 _ s
    · rfl
  | _ => exact hc.elim

/-- What a search costs when it begins. -/
theorem cost_beginCall (files : Files) (slots : Nat) (hc : call.IsSearch) (s : Session) :
    (⟨(s.beginCall call).1, slots, [(s.beginCall call).2]⟩ : Pool).cost s.known ≤
      4 * s.known.length + 3 + (4 * s.known.length + 7) * s.known.length := by
  have hstage : call.stage.cost s.known.length = 4 * s.known.length + 3 := by
    cases call with
    | ancestors name => rfl
    | ancestorsOfFile path => rfl
    | _ => exact hc.elim
  have hu : Flight.unvisited s.known { call } = s.known.length := by
    simp [Flight.unvisited]
  have hm : Instant.cost s.known 0 ⟨s, { call }, call.stage⟩ =
      4 * s.known.length + 3 + (4 * s.known.length + 7) * s.known.length := by
    simp [Instant.cost, Flight.cost, hstage, hu, Flight.finish, Flight.setBranch, Branch.cost]
  simp only [Pool.cost, List.map_cons, List.map_nil, List.sum_cons, List.sum_nil, Nat.add_zero]
  rcases s.beginCall_endsIn files call with hx | ⟨path, -, hx⟩
  · rw [← hm]
    exact Nat.le_of_lt ((Instant.steady_begin (.refl files s) call).cost_endsIn hx)
  · rw [hx]
    simp [Flight.cost, hu, Stage.cost, Branch.cost]

/-- What a search may come to lies within the bound of its schedule. -/
theorem work_beginCall (files : Files) (hc : call.IsSearch) (s : Session)
    {queue : List (Due × Place)} (hj : ∀ e ∈ queue, e.1 ≠ .joined) :
    (Schedule.solo slots (s.beginCall call).1 (s.beginCall call).2 queue).work s.known ≤
      (Schedule.solo slots (s.beginCall call).1 (s.beginCall call).2 queue).bound := by
  have hcost := cost_beginCall files slots hc s
  have hz : queue.countP (·.1 = .joined) = 0 := List.countP_eq_zero.2 (by simpa using hj)
  have hbound : ∀ (t : Session) (fl : Flight), 2 * (t.known.length + 2) *
      (8 * t.known.length + 24) ≤ (Schedule.solo slots t fl queue).bound :=
    fun t fl => Schedule.le_bound (Schedule.solo slots t fl queue)
  have hmul : (4 * s.known.length + 7) * (s.known.length + 1) ≤
      (8 * s.known.length + 24) * (s.known.length + 2) :=
    Nat.mul_le_mul (by omega) (by omega)
  calc
    (Schedule.solo slots (s.beginCall call).1 (s.beginCall call).2 queue).work s.known
      ≤ 2 * ((4 * s.known.length + 7) * (s.known.length + 1)) := by
        rw [Nat.mul_succ]
        simp only [Schedule.work, Schedule.solo, hz]
        omega
    _ ≤ 2 * (s.known.length + 2) * (8 * s.known.length + 24) := by
        rw [Nat.mul_assoc, Nat.mul_comm (s.known.length + 2)]
        exact Nat.mul_le_mul_left 2 hmul
    _ ≤ _ := by
        rw [← length_known_beginCall hc s]
        exact hbound _ _

/-- It is the same whether a call begins or was there before without having done anything. -/
theorem consequences_first (call : Call) (s : Session) (fl : Flight) :
    Schedule.consequences none ⟨s, slots, [fl]⟩ ⟨0, 0, none⟩ =
      Schedule.consequences (some { call }) ⟨s, slots, [fl]⟩ ⟨0, 0, none⟩ := by
  simp only [Schedule.consequences, List.getElem?_cons_zero, Option.map_none, Option.map_some,
    Option.getD_none, Option.getD_some, List.getElem?_nil, List.length_nil, List.length_singleton]
  cases fl.branches[0]? with
  | none => rfl
  | some branch => cases branch <;> rfl

/-- A search that has a session to itself is answered by the schedule, if there is a slot. -/
theorem exists_ask (files : Files) (hs : 0 < slots) (hc : call.IsSearch) (s : Session) :
    ∃ records t, Schedule.ask files slots call s = (some (.records records), t) := by
  let fl := (s.beginCall call).2
  let queue := Schedule.consequences none ⟨(s.beginCall call).1, slots, [fl]⟩ ⟨0, 0, none⟩
  have hrise : Rises 0 ({ call } : Flight).branches fl.branches := rises_beginCall hc s
  have hnone : (⟨(s.beginCall call).1, slots, [fl]⟩ : Pool).read? ⟨0, 0, none⟩ = none :=
    hrise.read?_eq_none Nat.zero_lt_one
  have hfirst : ({ call } : Flight).branches[0]? = some .finished := rfl
  have h₀ : (Flight.finish 0 { call }).Tracked [] := by
    refine ⟨?_, .refl _⟩
    intro branch hm
    rw [List.mem_singleton.1 hm]
    rfl
  obtain ⟨ht, hj⟩ := h₀.append (hrise.quiet h₀.quiet)
    (hrise.dues hfirst (by simp) (s.beginCall call).1)
  rw [← consequences_first, List.nil_append] at ht
  rw [← consequences_first] at hj
  have hsteady : (⟨(s.beginCall call).1, slots, [fl]⟩ : Pool).Steady files s := by
    have h : Pool.Steady files s ⟨s, slots, []⟩ := ⟨.refl files s, by simp⟩
    exact h.begin call
  have hcall : fl.call.IsSearch := by
    rw [s.call_beginCall call]
    exact hc
  obtain ⟨t, last, hd, hl, hlc⟩ := Schedule.drain_tracked hs hcall hsteady ht
    (work_beginCall files hc s hj)
  have hbegin : { Schedule.ofSession s slots with holding := false }.begin files call =
      Schedule.solo slots t last [] := by
    calc
      _ = ((Schedule.solo slots (s.beginCall call).1 fl queue).acquire files ⟨0, 0, none⟩).run
          files := rfl
      _ = Schedule.solo slots t last [] := by
        rw [Schedule.acquire_of_none hnone]
        exact hd
  have ha := Flight.answer?_of_finished (hlc ▸ hcall) hl.finished
  refine ⟨last.records, t, ?_⟩
  rw [Schedule.ask, hbegin]
  exact congrArg (·, t) ha

end Session
end Ancestry