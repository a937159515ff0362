import Ancestry.Proofs.Session.Instants
import Ancestry.Proofs.Session.View

/-!
What turns keep. An invariant is put together from a statement about the session and statements about
the single reads and cells in flight. It has to be checked for the few things that calls do to
these; then the beginning of a call and every turn of it keep the invariant of the whole pool.
-/

namespace Ancestry
open Ancestry.Source

/-- What calls leave as it is in a session: only events and drops change it. -/
structure Standing where
  strict : Bool
  extension : String
  candidates : List String
  /-- How often all contents were dropped. -/
  epoch : Nat
  /-- How often the contents of a path were. -/
  generation : String → Nat
  /-- How often lists of importers were. -/
  listEpoch : Nat

def Standing.markOf (d : Standing) (path : String) : Mark :=
  ⟨d.epoch, d.generation path⟩

def Session.standing (s : Session) : Standing where
  strict := s.strict
  extension := s.extension
  candidates := s.candidates
  epoch := s.contents.epoch
  generation := s.contents.generation
  listEpoch := s.importers.epoch

def Cell.path : Cell → String
  | idle path => path
  | reading r => r.path
  | settled path _ => path

theorem Cell.paths_set {cells : List Cell} {k : Nat} {old new : Cell} (ho : cells[k]? = some old)
    (hp : new.path = old.path) : (cells.set k new).map path = cells.map path := by
  obtain ⟨hlt, rfl⟩ := List.getElem?_eq_some_iff.1 ho
  have hl : k < (cells.map path).length := by simpa using hlt
  have hg : (cells.map path)[k] = new.path := by rw [List.getElem_map, hp]
  rw [List.map_set, ← hg, List.set_getElem_self]

/-- What a read has found once it took the text of its file. -/
def Read.holding (r : Read) (files : Files) : Read :=
  { r with state := .holding (files r.path) }

/-- A read takes what its file holds, and only the counters of the session move. -/
theorem Session.takeText_eq (files : Files) (r : Read) (s : Session) :
    ∃ stats, s.takeText files r =
      ({ s with contents := { s.contents with stats } }, r.holding files) :=
  ⟨_, rfl⟩

/-- A read that ends keeps its text, and else only the counters move. -/
theorem Session.endRead_eq (r : Read) (text? : Option String) (s : Session) :
    ∃ stats, s.endRead r text? =
      { s with contents := { s.contents with stats } }.keepRead r (Contents.textRead text?) := by
  obtain ⟨stats, hs⟩ := s.contents.countEnd_eq text?
  exact ⟨stats, by rw [Session.endRead, hs]⟩

/-- An invariant in parts. Reads and cells see the session only as it stands. -/
structure Invariant where
  session : Session → Prop
  read : Standing → Read → Prop
  /-- About the epoch in which a scan began and the paths of its cells. -/
  scan : Standing → Nat → List String → Prop
  /-- About one cell of a scan for a component that began in an epoch. -/
  cell : Standing → String → Nat → Cell → Prop

namespace Invariant
variable {I : Invariant} {files : Files} {d : Standing} {s : Session} {fl : Flight} {p : Pool}

def branch (I : Invariant) (d : Standing) : Branch → Prop
  | .reading r | .looking r => I.read d r
  | .scanning scan =>
    I.scan d scan.epoch (scan.cells.map Cell.path) ∧
      ∀ cell ∈ scan.cells, I.cell d scan.name scan.epoch cell
  | .visiting _ | .finished => True

def flight (I : Invariant) (d : Standing) (fl : Flight) : Prop :=
  ∀ branch ∈ fl.branches, I.branch d branch

def pool (I : Invariant) (p : Pool) : Prop :=
  I.session p.session ∧ ∀ fl ∈ p.flights, I.flight p.session.standing fl

/-- The invariant of a pool goes over to another one, part by part, when the session changes. -/
theorem pool_of_parts {J : Invariant} {s' : Session} (hp : I.pool p) (hs : J.session s')
    (hr : ∀ r, I.read p.session.standing r → J.read s'.standing r)
    (hn : ∀ epoch paths, I.scan p.session.standing epoch paths → J.scan s'.standing epoch paths)
    (hc : ∀ name epoch paths cell, I.scan p.session.standing epoch paths →
      I.cell p.session.standing name epoch cell → J.cell s'.standing name epoch cell) :
    J.pool { p with session := s' } := by
  refine ⟨hs, fun fl hfl branch hbr => ?_⟩
  have hb := hp.2 fl hfl branch hbr
  cases branch with
  | reading r => exact hr r hb
  | looking r => exact hr r hb
  | scanning scan => exact ⟨hn _ _ hb.1, fun cell hcell => hc _ _ _ cell hb.1 (hb.2 cell hcell)⟩
  | visiting path => trivial
  | finished => trivial

/-- What is to be checked of an invariant. -/
structure Kept (I : Invariant) (files : Files) : Prop where
  count : ∀ {s : Session} (stats stats' : Statistics), I.session s →
    I.session { s with
      contents := { s.contents with stats }, importers := { s.importers with stats := stats' } }
  request : ∀ (d : Standing) (path : String), I.read d ⟨path, d.markOf path, .waiting⟩
  take : ∀ {d : Standing} {r : Read}, I.read d r → I.read d (r.holding files)
  keepText : ∀ {s : Session} {r : Read} {text? : Option String}, I.session s →
    I.read s.standing r → r.state = .holding text? →
    I.session (s.keepRead r (Contents.textRead text?))
  keepCalls : ∀ {s : Session} {path text : String}, I.session s →
    s.contents.texts.get? path = some text →
    I.session { s with
      contents := s.contents.keepCalls path (s.contents.markOf path) (Contents.callsIn text) }
  keepBoth : ∀ {s : Session} {r : Read} {text? : Option String}, I.session s →
    I.read s.standing r → r.state = .holding text? →
    I.session { s with
      contents := (s.contents.keepText r.path r.mark (Contents.textRead text?)).keepCalls r.path
        r.mark (Contents.callsIn (Contents.textRead text?)) }
  openScan : ∀ {s : Session}, I.session s → I.scan s.standing s.importers.epoch s.candidates
  idleCell : ∀ (d : Standing) (name : String) (epoch : Nat) (path : String),
    I.cell d name epoch (.idle path)
  hitCell : ∀ {s : Session} (name : String) (epoch : Nat) {path text : String}, I.session s →
    s.contents.texts.get? path = some text →
    I.cell s.standing name epoch (.settled path (importsName text name))
  requestCell : ∀ (d : Standing) (name : String) (epoch : Nat) (path : String),
    I.cell d name epoch (.reading ⟨path, d.markOf path, .waiting⟩)
  takeCell : ∀ {d : Standing} {name : String} {epoch : Nat} {r : Read},
    I.cell d name epoch (.reading r) → I.cell d name epoch (.reading (r.holding files))
  readCell : ∀ {d : Standing} {name : String} {epoch : Nat} {r : Read},
    I.cell d name epoch (.reading r) → I.read d r
  settleCell : ∀ {d : Standing} {name : String} {epoch : Nat} {r : Read} {text? : Option String},
    I.cell d name epoch (.reading r) → r.state = .holding text? →
    I.cell d name epoch (.settled r.path (importsName (Contents.textRead text?) name))
  settle : ∀ {s : Session} (scan : Scan), I.session s →
    I.scan s.standing scan.epoch (scan.cells.map Cell.path) →
    (∀ cell ∈ scan.cells, I.cell s.standing scan.name scan.epoch cell) → scan.isSettled →
    I.session { s with
      importers := (s.importers.settle s.candidates scan.name scan.epoch
        (scan.cells.filterMap Cell.importer?)).2 }

/-- What a branch has to satisfy between two stops is nothing but what the session has to. -/
def stage (I : Invariant) (d : Standing) : Stage → Prop
  | .resting branch => I.branch d branch
  | _ => True

/-- The invariant at an instant of a call, while the session stands at `d`. -/
structure Holds (I : Invariant) (d : Standing) (m : Instant) : Prop where
  standing : m.session.standing = d
  session : I.session m.session
  flight : I.flight d m.flight
  stage : I.stage d m.stage

theorem flight_setBranch (h : I.flight d fl) {branch : Branch} (hb : I.branch d branch) (b : Nat) :
    I.flight d (fl.setBranch b branch) := by
  intro other ho
  rcases List.mem_or_eq_of_mem_set ho with ho | rfl
  · exact h other ho
  · exact hb

theorem flight_spread (h : I.flight d fl) (found : List String) :
    I.flight d { fl with branches := fl.branches ++ found.map .visiting } := by
  intro branch hb
  rcases List.mem_append.1 hb with hb | hb
  · exact h branch hb
  · obtain ⟨path, -, rfl⟩ := List.mem_map.1 hb
    trivial

/-- A cell of a scan moves on and stays a cell of its path. -/
theorem branch_setCell {scan : Scan} {old cell : Cell} {k : Nat}
    (hs : I.branch d (.scanning scan)) (ho : scan.cells[k]? = some old)
    (hc : I.cell d scan.name scan.epoch cell) (hp : cell.path = old.path) :
    I.branch d (.scanning { scan with cells := scan.cells.set k cell }) := by
  refine ⟨by simpa only [Cell.paths_set ho hp] using hs.1, fun other ho => ?_⟩
  rcases List.mem_or_eq_of_mem_set ho with ho | rfl
  · exact hs.2 other ho
  · exact hc

theorem settle_epoch (candidates : List String) (name : String) (epoch : Nat)
    (found : List String) (g : Importers) :
    (g.settle candidates name epoch found).2.epoch = g.epoch := by
  unfold Importers.settle
  split <;> rfl

theorem standing_keepRead (r : Read) (text : String) (s : Session) :
    (s.keepRead r text).standing = s.standing := by
  unfold Session.keepRead Contents.keepText
  split <;> rfl

theorem standing_keepCalls (path : String) (mark : Mark) (calls : List String) (s : Session) :
    { s with contents := s.contents.keepCalls path mark calls }.standing = s.standing := by
  unfold Contents.keepCalls
  split <;> rfl

theorem standing_settle (candidates : List String) (name : String) (epoch : Nat)
    (found : List String) (s : Session) :
    { s with importers := (s.importers.settle candidates name epoch found).2 }.standing =
      s.standing := by
  simp only [Session.standing, settle_epoch]

theorem standing_endRead (r : Read) (text? : Option String) (s : Session) :
    (s.endRead r text?).standing = s.standing := by
  obtain ⟨stats, hx⟩ := s.endRead_eq r text?
  rw [hx]
  exact standing_keepRead ..

/-- A read that ends keeps the invariant. -/
theorem endRead (hk : I.Kept files) {r : Read} {text? : Option String} (hs : I.session s)
    (hr : I.read s.standing r) (ht : r.state = .holding text?) :
    (s.endRead r text?).standing = s.standing ∧ I.session (s.endRead r text?) := by
  obtain ⟨stats, hx⟩ := s.endRead_eq r text?
  rw [hx]
  exact ⟨standing_keepRead .., hk.keepText (hk.count stats s.importers.stats hs) hr ht⟩

theorem cell_next (hk : I.Kept files) {s' : Session} {name : String} {epoch : Nat} {old new : Cell}
    (hn : old.Next files name s s' new) (hs : I.session s) (hc : I.cell s.standing name epoch old) :
    s'.standing = s.standing ∧ I.session s' ∧ I.cell s.standing name epoch new ∧
      new.path = old.path := by
  cases hn with
  | known ht => exact ⟨rfl, hk.count _ s.importers.stats hs, hk.hitCell name epoch hs ht, rfl⟩
  | ask ht =>
    exact ⟨rfl, hk.count _ s.importers.stats hs, hk.requestCell s.standing name epoch _, rfl⟩
  | take hr =>
    rename_i r
    obtain ⟨stats, hx⟩ := s.takeText_eq files r
    rw [hx]
    exact ⟨rfl, hk.count stats s.importers.stats hs, hk.takeCell hc, rfl⟩
  | settle hr =>
    obtain ⟨hd, hs'⟩ := endRead hk hs (hk.readCell hc) hr
    exact ⟨hd, hs', hk.settleCell hc hr, rfl⟩

/-- Whatever follows on an instant, the invariant goes on to hold. -/
theorem Holds.next (hk : I.Kept files) {m m' : Instant} (h : I.Holds d m) (hn : m.Next files m') :
    I.Holds d m' := by
  obtain ⟨rfl, hs, hf, hg⟩ := h
  cases hn with
  | skip hv => exact ⟨rfl, hs, hf, trivial⟩
  | enter hv => exact ⟨rfl, hs, hf, trivial⟩
  | textKnown ht => exact ⟨rfl, hk.count _ _ hs, hf, trivial⟩
  | askText ht => exact ⟨rfl, hk.count _ _ hs, hf, hk.request _ _⟩
  | takeText hr =>
    rename_i s fl r
    obtain ⟨stats, hx⟩ := s.takeText_eq files r
    rw [hx]
    exact ⟨rfl, hk.count stats s.importers.stats hs, hf, hk.take hg⟩
  | endText hr =>
    obtain ⟨hd, hs'⟩ := endRead hk hs hg hr
    exact ⟨hd, hs', hf, trivial⟩
  | callsKnown hc => exact ⟨rfl, hk.count _ _ hs, hf, trivial⟩
  | callsOfKnown hc ht =>
    rename_i s fl path text
    have hm : I.session { s with contents := s.contents.countCallsMiss.countTextHit } :=
      hk.count _ s.importers.stats hs
    have hd := standing_keepCalls path (s.contents.markOf path) (Contents.callsIn text)
      { s with contents := s.contents.countCallsMiss.countTextHit }
    exact ⟨hd, hk.keepCalls hm ht, hf, trivial⟩
  | askCalls hc ht => exact ⟨rfl, hk.count _ _ hs, hf, hk.request _ _⟩
  | takeCalls hr =>
    rename_i s fl r
    obtain ⟨stats, hx⟩ := s.takeText_eq files r
    rw [hx]
    exact ⟨rfl, hk.count stats s.importers.stats hs, hf, hk.take hg⟩
  | endCalls hr =>
    rename_i s fl r text?
    obtain ⟨stats, hx⟩ := s.endRead_eq r text?
    rw [hx]
    have hd := (standing_keepCalls r.path r.mark (Contents.callsIn (Contents.textRead text?)) _).trans
      (standing_keepRead r (Contents.textRead text?) { s with contents := { s.contents with stats } })
    exact ⟨hd, hk.keepBoth (hk.count stats s.importers.stats hs) hg hr, hf, trivial⟩
  | tell hc => exact ⟨rfl, hs, hf, trivial⟩
  | report hc => exact ⟨rfl, hs, hf, trivial⟩
  | listKnown hl => exact ⟨rfl, hk.count _ _ hs, hf, trivial⟩
  | scan hl =>
    rename_i s fl name
    refine ⟨rfl, hk.count _ _ hs, hf, ?_, ?_⟩
    · simpa [List.map_map, Function.comp_def, Cell.path] using hk.openScan hs
    · intro cell hc
      obtain ⟨path, -, rfl⟩ := List.mem_map.1 hc
      exact hk.idleCell s.standing name _ path
  | cell ho hn =>
    obtain ⟨hd, hs', hc, hp⟩ := cell_next hk hn hs (hg.2 _ (List.mem_of_getElem? ho))
    exact ⟨hd, hs', hf, branch_setCell hg ho hc hp⟩
  | gather hc => exact ⟨standing_settle .., hk.settle _ hs hg.1 hg.2 hc, hf, trivial⟩
  | answer hc => exact ⟨rfl, hs, hf, trivial⟩
  | spread hc => exact ⟨rfl, hs, flight_spread hf _, trivial⟩

/-- The invariant of the session and of one call holds again when its branch rests. -/
theorem Holds.endsIn (hk : I.Kept files) {m : Instant} {b : Nat} {x : Session × Flight}
    (h : I.Holds d m) (hx : m.EndsIn files b x) :
    x.1.standing = d ∧ I.session x.1 ∧ I.flight d x.2 := by
  obtain ⟨fl, branch, hr, he⟩ := hx.keeps (fun hn h => h.next hk hn) h
  rw [he]
  exact ⟨hr.standing, hr.session, flight_setBranch hr.flight hr.stage b⟩

/-- A call begins with nothing but the session to speak of. -/
theorem holds_begin (hs : I.session s) (call : Call) :
    I.Holds s.standing ⟨s, { call }, call.stage⟩ := by
  refine ⟨rfl, hs, ?_, ?_⟩
  · intro branch hb
    rw [List.mem_singleton.1 hb]
    trivial
  · cases call <;> trivial

/-- A branch that rests satisfies what the pool does. -/
theorem holds_resting (hp : I.pool p) {i b : Nat} {branch : Branch} (hf : p.flights[i]? = some fl)
    (hb : fl.branches[b]? = some branch) :
    I.Holds p.session.standing ⟨p.session, fl, .resting branch⟩ := by
  have hfl := hp.2 fl (List.mem_of_getElem? hf)
  exact ⟨rfl, hp.1, hfl, hfl branch (List.mem_of_getElem? hb)⟩

theorem beginCall_holds (hk : I.Kept files) (hs : I.session s) (call : Call) :
    (s.beginCall call).1.standing = s.standing ∧ I.session (s.beginCall call).1 ∧
      I.flight s.standing (s.beginCall call).2 := by
  have hm := holds_begin hs call
  rcases s.beginCall_endsIn files call with hx | ⟨path, -, hx⟩
  · exact hm.endsIn hk hx
  · rw [hx]
    exact ⟨rfl, hs, hm.flight⟩

theorem pool_begin (hk : I.Kept files) (hp : I.pool p) (call : Call) :
    I.pool (p.begin call) ∧ (p.begin call).session.standing = p.session.standing := by
  obtain ⟨hd, hs, hf⟩ := beginCall_holds hk hp.1 call
  have hb : (p.begin call).session.standing = p.session.standing := hd
  refine ⟨⟨hs, fun fl hfl => ?_⟩, hb⟩
  rw [hb]
  rcases List.mem_append.1 hfl with hfl | hfl
  · exact hp.2 fl hfl
  · rw [List.mem_singleton.1 hfl]
    exact hf

/-- Every turn keeps the invariant, whichever call it moves and wherever that call stands. -/
theorem pool_turn? (hk : I.Kept files) (hp : I.pool p) {turn : Turn} {place : Place} {p' : Pool}
    (ht : p.turn? files turn place = some p') :
    I.pool p' ∧ p'.session.standing = p.session.standing := by
  obtain ⟨fl, branch, next, hf, hb, hx, rfl⟩ := Pool.turn?_endsIn ht
  obtain ⟨hd, hs, hn⟩ := (holds_resting hp hf hb).endsIn hk hx
  have hu : (p.update place.flight next).session.standing = p.session.standing := hd
  refine ⟨⟨hs, fun other ho => ?_⟩, hu⟩
  rw [hu]
  rcases List.mem_or_eq_of_mem_set ho with ho | rfl
  · exact hp.2 other ho
  · exact hn

end Invariant
end Ancestry
