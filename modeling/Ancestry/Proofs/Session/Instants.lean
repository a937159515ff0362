import Ancestry.Session.Pool
import Mathlib.Logic.Relation

/-!
Turns from the inside. Between two stops a branch passes through several instants: it comes to a file,
looks its provide calls up, reports them, looks for importers and hands them on. What can follow on
an instant is said once, in `Instant.Next`. A property that it keeps is kept by every turn and by the
beginning of every call.
-/

namespace Ancestry
open Ancestry.Source

/-- Where a branch stands at an instant. -/
inductive Stage where
  /-- The branch is at a stop. -/
  | resting (branch : Branch)
  /-- The text of a file is asked for. -/
  | opening (path : String)
  /-- The provide calls of a file are asked for. -/
  | entering (path : String)
  /-- The provide calls of a file are there. -/
  | reporting (path : String) (calls : List String)
  /-- The importers of a component are asked for. -/
  | exploring (name : String)
  /-- The importers of a component are there. -/
  | ascending (found : List String)

/-- A session, a call in flight on it and the stage of one of its branches. -/
structure Instant where
  session : Session
  flight : Flight
  stage : Stage

/-- How one cell of a scan for `name` moves on. -/
inductive Cell.Next (files : Files) (name : String) : Session → Cell → Session → Cell → Prop
  | known {s : Session} {path text : String} (h : s.contents.texts.get? path = some text) :
      Next files name s (.idle path) { s with contents := s.contents.countTextHit }
        (.settled path (importsName text name))
  | ask {s : Session} {path : String} (h : s.contents.texts.get? path = none) :
      Next files name s (.idle path) { s with contents := (s.contents.request path).2 }
        (.reading (s.contents.request path).1)
  | take {s : Session} {r : Read} (h : r.state = .waiting) :
      Next files name s (.reading r) (s.takeText files r).1 (.reading (s.takeText files r).2)
  | settle {s : Session} {r : Read} {text? : Option String} (h : r.state = .holding text?) :
      Next files name s (.reading r) (s.endRead r text?)
        (.settled r.path (importsName (Contents.textRead text?) name))

/-- What can follow on an instant. -/
inductive Instant.Next (files : Files) : Instant → Instant → Prop
  | skip {s : Session} {fl : Flight} {path : String} (h : path ∈ fl.visited) :
      Next files ⟨s, fl, .resting (.visiting path)⟩ ⟨s, fl, .resting .finished⟩
  | enter {s : Session} {fl : Flight} {path : String} (h : path ∉ fl.visited) :
      Next files ⟨s, fl, .resting (.visiting path)⟩
        ⟨s, { fl with visited := path :: fl.visited }, .entering path⟩
  | textKnown {s : Session} {fl : Flight} {path text : String}
      (h : s.contents.texts.get? path = some text) :
      Next files ⟨s, fl, .opening path⟩
        ⟨{ s with contents := s.contents.countTextHit }, { fl with value? := some (.text text) },
          .resting .finished⟩
  | askText {s : Session} {fl : Flight} {path : String} (h : s.contents.texts.get? path = none) :
      Next files ⟨s, fl, .opening path⟩
        ⟨{ s with contents := (s.contents.request path).2 }, fl,
          .resting (.reading (s.contents.request path).1)⟩
  | takeText {s : Session} {fl : Flight} {r : Read} (h : r.state = .waiting) :
      Next files ⟨s, fl, .resting (.reading r)⟩
        ⟨(s.takeText files r).1, fl, .resting (.reading (s.takeText files r).2)⟩
  | endText {s : Session} {fl : Flight} {r : Read} {text? : Option String}
      (h : r.state = .holding text?) :
      Next files ⟨s, fl, .resting (.reading r)⟩
        ⟨s.endRead r text?, { fl with value? := some (.text (Contents.textRead text?)) },
          .resting .finished⟩
  | callsKnown {s : Session} {fl : Flight} {path : String} {calls : List String}
      (h : s.contents.calls.get? path = some calls) :
      Next files ⟨s, fl, .entering path⟩
        ⟨{ s with contents := s.contents.countCallsHit }, fl, .reporting path calls⟩
  | callsOfKnown {s : Session} {fl : Flight} {path text : String}
      (hc : s.contents.calls.get? path = none) (ht : s.contents.texts.get? path = some text) :
      Next files ⟨s, fl, .entering path⟩
        ⟨{ s with
            contents := s.contents.countCallsMiss.countTextHit.keepCalls path
              (s.contents.markOf path) (Contents.callsIn text) },
          fl, .reporting path (Contents.callsIn text)⟩
  | askCalls {s : Session} {fl : Flight} {path : String}
      (hc : s.contents.calls.get? path = none) (ht : s.contents.texts.get? path = none) :
      Next files ⟨s, fl, .entering path⟩
        ⟨{ s with contents := (s.contents.countCallsMiss.request path).2 }, fl,
          .resting (.looking (s.contents.countCallsMiss.request path).1)⟩
  | takeCalls {s : Session} {fl : Flight} {r : Read} (h : r.state = .waiting) :
      Next files ⟨s, fl, .resting (.looking r)⟩
        ⟨(s.takeText files r).1, fl, .resting (.looking (s.takeText files r).2)⟩
  | endCalls {s : Session} {fl : Flight} {r : Read} {text? : Option String}
      (h : r.state = .holding text?) :
      Next files ⟨s, fl, .resting (.looking r)⟩
        ⟨{ s with
            contents := (s.endRead r text?).contents.keepCalls r.path r.mark
              (Contents.callsIn (Contents.textRead text?)) },
          fl, .reporting r.path (Contents.callsIn (Contents.textRead text?))⟩
  | tell {s : Session} {fl : Flight} {path file : String} {calls : List String}
      (h : fl.call = .provides file) :
      Next files ⟨s, fl, .reporting path calls⟩
        ⟨s, { fl with value? := some (.calls calls) }, .resting .finished⟩
  | report {s : Session} {fl : Flight} {path : String} {calls : List String}
      (h : ∀ file, fl.call ≠ .provides file) :
      Next files ⟨s, fl, .reporting path calls⟩
        ⟨s, { fl with
            records :=
              if calls = [] then fl.records else fl.records ++ [Session.recordOf path calls] },
          .exploring (componentName path)⟩
  | listKnown {s : Session} {fl : Flight} {name : String} {found : List String}
      (h : s.importers.lists.get? name = some found) :
      Next files ⟨s, fl, .exploring name⟩
        ⟨{ s with importers := s.importers.countHit }, fl, .ascending found⟩
  | scan {s : Session} {fl : Flight} {name : String} (h : s.importers.lists.get? name = none) :
      Next files ⟨s, fl, .exploring name⟩
        ⟨{ s with importers := s.importers.countMiss }, fl,
          .resting (.scanning ⟨name, s.importers.epoch, s.candidates.map .idle⟩)⟩
  | cell {s s' : Session} {fl : Flight} {scan : Scan} {k : Nat} {old new : Cell}
      (ho : scan.cells[k]? = some old) (hn : Cell.Next files scan.name s old s' new) :
      Next files ⟨s, fl, .resting (.scanning scan)⟩
        ⟨s', fl, .resting (.scanning { scan with cells := scan.cells.set k new })⟩
  | gather {s : Session} {fl : Flight} {scan : Scan} (h : scan.isSettled) :
      Next files ⟨s, fl, .resting (.scanning scan)⟩
        ⟨{ s with
            importers := (s.importers.settle s.candidates scan.name scan.epoch
              (scan.cells.filterMap Cell.importer?)).2 },
          fl, .ascending (s.importers.settle s.candidates scan.name scan.epoch
            (scan.cells.filterMap Cell.importer?)).1⟩
  | answer {s : Session} {fl : Flight} {name : String} {found : List String}
      (h : fl.call = .importers name) :
      Next files ⟨s, fl, .ascending found⟩
        ⟨s, { fl with value? := some (.paths found) }, .resting .finished⟩
  | spread {s : Session} {fl : Flight} {found : List String}
      (h : ∀ name, fl.call ≠ .importers name) :
      Next files ⟨s, fl, .ascending found⟩
        ⟨s, { fl with branches := fl.branches ++ found.map .visiting }, .resting .finished⟩

namespace Instant
variable {files : Files} {s : Session} {fl : Flight} {m m' : Instant} {b : Nat}
variable {x : Session × Flight}

/-- From an instant of its branch `b` a call comes to a stop, as `x` tells. -/
def EndsIn (files : Files) (b : Nat) (m : Instant) (x : Session × Flight) : Prop :=
  ∃ s fl branch, Relation.TransGen (Next files) m ⟨s, fl, .resting branch⟩ ∧
    x = (s, fl.setBranch b branch)

theorem EndsIn.single {branch : Branch} (h : Next files m ⟨s, fl, .resting branch⟩) :
    EndsIn files b m (s, fl.setBranch b branch) :=
  ⟨s, fl, branch, .single h, rfl⟩

theorem EndsIn.head (h : Next files m m') (hx : EndsIn files b m' x) : EndsIn files b m x := by
  obtain ⟨s, fl, branch, ht, rfl⟩ := hx
  exact ⟨s, fl, branch, .head h ht, rfl⟩

theorem keeps_of_transGen {P : Instant → Prop} (hP : ∀ {m m'}, Next files m m' → P m → P m')
    (h : Relation.TransGen (Next files) m m') (hm : P m) : P m' := by
  induction h with
  | single h => exact hP h hm
  | tail _ h ih => exact hP h ih

/-- What every next instant keeps holds when the branch rests again. -/
theorem EndsIn.keeps {P : Instant → Prop} (hP : ∀ {m m'}, Next files m m' → P m → P m')
    (hm : P m) (hx : EndsIn files b m x) :
    ∃ fl branch, P ⟨x.1, fl, .resting branch⟩ ∧ x.2 = fl.setBranch b branch := by
  obtain ⟨s, fl, branch, ht, rfl⟩ := hx
  exact ⟨fl, branch, keeps_of_transGen hP ht hm, rfl⟩

theorem Next.call_eq (h : Next files m m') : m'.flight.call = m.flight.call := by
  cases h <;> rfl

theorem EndsIn.call_eq (hx : EndsIn files b m x) : x.2.call = m.flight.call := by
  obtain ⟨fl, branch, hc, he⟩ := hx.keeps (P := fun m' => m'.flight.call = m.flight.call)
    (fun hn h => hn.call_eq.trans h) rfl
  rw [he]
  exact hc

end Instant

/-- Branches that a call spreads into come behind the one that ends. -/
theorem Flight.finish_spread {fl : Flight} {b : Nat} (hb : b < fl.branches.length)
    (found : List String) :
    { fl with branches := fl.branches ++ found.map Branch.visiting }.finish b =
      { fl with branches := (fl.finish b).branches ++ found.map Branch.visiting } :=
  congrArg (fun branches => { fl with branches }) (List.set_append_left b _ hb)

namespace Session
open Instant
variable {s : Session} {fl : Flight} {b : Nat}

theorem withImporters_endsIn (files : Files) (s : Session) (hb : b < fl.branches.length)
    (found : List String) :
    EndsIn files b ⟨s, fl, .ascending found⟩ (s, fl.withImporters b found) := by
  have hf : (fl.finish b).call = fl.call := rfl
  simp only [Flight.withImporters, hf]
  split
  · rename_i name hc
    exact ⟨s, { fl with value? := some (.paths found) }, .finished, .single (.answer hc), rfl⟩
  · rename_i hc
    exact ⟨s, { fl with branches := fl.branches ++ found.map .visiting }, .finished,
      .single (.spread hc), congrArg (s, ·) (Flight.finish_spread hb found).symm⟩

theorem explore_endsIn (files : Files) (s : Session) (hb : b < fl.branches.length)
    (name : String) : EndsIn files b ⟨s, fl, .exploring name⟩ (s.explore b name fl) := by
  unfold explore
  split
  · rename_i found hl
    exact .head (.listKnown hl) (withImporters_endsIn files _ hb found)
  · rename_i hl
    have hn : Next files ⟨s, fl, .exploring name⟩ _ := .scan hl
    simp only
    split
    · -- A scan of no candidates ends where it begins.
      rename_i hc
      have hi : s.candidates.map Cell.idle = [] := by rw [hc, List.map_nil]
      rw [hi] at hn
      have hg : Next files ⟨{ s with importers := s.importers.countMiss }, fl,
          .resting (.scanning ⟨name, s.importers.epoch, []⟩)⟩ _ := .gather rfl
      exact .head hn (.head hg (withImporters_endsIn files _ hb _))
    · exact .single hn

theorem withCalls_endsIn (files : Files) (s : Session) (hb : b < fl.branches.length)
    (path : String) (calls : List String) :
    EndsIn files b ⟨s, fl, .reporting path calls⟩ (s.withCalls b path calls fl) := by
  unfold withCalls
  split
  · rename_i file hc
    exact ⟨s, { fl with value? := some (.calls calls) }, .finished, .single (.tell hc), rfl⟩
  · rename_i hc
    refine .head (.report hc) (explore_endsIn files s ?_ _)
    exact hb

theorem lookUp_endsIn (files : Files) (s : Session) (hb : b < fl.branches.length)
    (path : String) : EndsIn files b ⟨s, fl, .entering path⟩ (s.lookUp b path fl) := by
  unfold lookUp
  split
  · rename_i calls hc
    exact .head (.callsKnown hc) (withCalls_endsIn files _ hb path calls)
  · rename_i hc
    simp only
    split
    · rename_i text ht
      exact .head (.callsOfKnown hc ht) (withCalls_endsIn files _ hb path _)
    · rename_i ht
      exact .single (.askCalls hc ht)

theorem visit_endsIn (files : Files) (s : Session) (hb : b < fl.branches.length)
    (path : String) :
    EndsIn files b ⟨s, fl, .resting (.visiting path)⟩ (s.visit b path fl) := by
  unfold visit
  split
  · rename_i hv
    exact .single (.skip hv)
  · rename_i hv
    refine .head (.enter hv) (lookUp_endsIn files s ?_ path)
    exact hb

theorem endLookUp_endsIn (files : Files) (s : Session) (hb : b < fl.branches.length)
    {r : Read} {text? : Option String} (h : r.state = .holding text?) :
    EndsIn files b ⟨s, fl, .resting (.looking r)⟩ (s.endLookUp b r text? fl) :=
  .head (.endCalls h) (withCalls_endsIn files _ hb r.path _)

theorem endScan_endsIn (files : Files) (s : Session) (hb : b < fl.branches.length)
    {scan : Scan} (h : scan.isSettled) :
    EndsIn files b ⟨s, fl, .resting (.scanning scan)⟩ (s.endScan b scan fl) :=
  .head (.gather h) (withImporters_endsIn files _ hb _)

end Session

/-- The stage at which a call begins. -/
def Call.stage : Call → Stage
  | text path => .opening path
  | provides path => .entering path
  | importers name | ancestors name => .exploring name
  | ancestorsOfFile path => .exploring (componentName path)

/-- A call passes from its first stage to a stop, unless it is about a file that is no component. -/
theorem Session.beginCall_endsIn (files : Files) (s : Session) (call : Call) :
    Instant.EndsIn files 0 ⟨s, { call }, call.stage⟩ (s.beginCall call) ∨
      ∃ path, call = .ancestorsOfFile path ∧ s.beginCall call = (s, { call }) := by
  have hb : 0 < ({ call } : Flight).branches.length := Nat.zero_lt_one
  unfold Session.beginCall
  cases call with
  | text path =>
    left
    simp only
    split
    · rename_i text ht
      exact .single (.textKnown ht)
    · rename_i ht
      exact .single (.askText ht)
  | provides path => exact .inl (lookUp_endsIn files s hb path)
  | importers name => exact .inl (explore_endsIn files s hb name)
  | ancestors name => exact .inl (explore_endsIn files s hb name)
  | ancestorsOfFile path =>
    simp only
    split
    · exact .inl (explore_endsIn files s hb _)
    · exact .inr ⟨path, rfl, rfl⟩

theorem Session.call_beginCall (s : Session) (call : Call) : (s.beginCall call).2.call = call := by
  rcases s.beginCall_endsIn (fun _ => none) call with hx | ⟨path, -, hx⟩
  · exact hx.call_eq
  · rw [hx]

/-- A turn takes the branch at its place from one stop to another. -/
theorem Pool.turn?_endsIn {files : Files} {p p' : Pool} {turn : Turn} {place : Place}
    (ht : p.turn? files turn place = some p') :
    ∃ fl branch next, p.flights[place.flight]? = some fl ∧
      fl.branches[place.branch]? = some branch ∧
      Instant.EndsIn files place.branch ⟨p.session, fl, .resting branch⟩ next ∧
      p' = p.update place.flight next := by
  simp only [Pool.turn?, bind, Option.bind_eq_some_iff] at ht
  obtain ⟨fl, hfl, branch, hbr, ht⟩ := ht
  have hb : place.branch < fl.branches.length := (List.getElem?_eq_some_iff.1 hbr).1
  suffices h : ∃ next, Instant.EndsIn files place.branch ⟨p.session, fl, .resting branch⟩ next ∧
      p' = p.update place.flight next by
    obtain ⟨next, he, hp⟩ := h
    exact ⟨fl, branch, next, hfl, hbr, he, hp⟩
  split at ht
  · -- A file is visited.
    cases ht
    exact ⟨_, Session.visit_endsIn files _ hb _, rfl⟩
  · -- A cell begins.
    split at ht
    · rename_i path ho
      cases ht
      refine ⟨_, .single (.cell ho ?_), rfl⟩
      unfold Session.openCell
      split
      · rename_i hx
        exact .known hx
      · rename_i hx
        exact .ask hx
    · cases ht
  · -- A read takes its text: of a plain call, for provide calls, or in a cell.
    split at ht
    · rename_i hr
      cases ht
      exact ⟨_, .single (.takeText hr.1), rfl⟩
    · cases ht
  · split at ht
    · rename_i hr
      cases ht
      exact ⟨_, .single (.takeCalls hr.1), rfl⟩
    · cases ht
  · split at ht
    · rename_i ho
      split at ht
      · rename_i hr
        cases ht
        exact ⟨_, .single (.cell ho (.take hr.1)), rfl⟩
      · cases ht
    · cases ht
  · -- A read ends, in the same three places.
    split at ht
    · rename_i hr
      cases ht
      exact ⟨_, .single (.endText hr), rfl⟩
    · cases ht
  · split at ht
    · rename_i hr
      cases ht
      exact ⟨_, Session.endLookUp_endsIn files _ hb hr, rfl⟩
    · cases ht
  · split at ht
    · rename_i ho
      split at ht
      · rename_i hr
        cases ht
        exact ⟨_, .single (.cell ho (.settle hr)), rfl⟩
      · cases ht
    · cases ht
  · -- A scan ends.
    split at ht
    · rename_i hc
      cases ht
      exact ⟨_, Session.endScan_endsIn files _ hb hc, rfl⟩
    · cases ht
  · cases ht

end Ancestry
