import Ancestry.Session.Flight

/-!
Pools: a session together with the calls in flight on it. A turn moves one call at one place; any
turn may come next. Reads take turns for a limited number of slots.
-/

namespace Ancestry

/-- A place in a pool: a branch of a call in flight, or one cell of the scan in that branch. -/
structure Place where
  flight : Nat
  branch : Nat
  cell? : Option Nat := none
  deriving DecidableEq, Repr

/-- What may happen at a place. -/
inductive Turn where
  /-- A file is visited, or a cell begins. -/
  | start
  /-- A waiting read takes a slot and the current text. -/
  | take
  /-- A read gives its slot back and the call goes on with the text. -/
  | complete
  /-- A scan ends. -/
  | gather
  deriving DecidableEq, Repr

structure Pool where
  session : Session
  /-- How many reads may hold a slot at once. -/
  slots : Nat
  flights : List Flight := []

namespace Pool

def branch? (p : Pool) (place : Place) : Option Branch := do
  (← p.flights[place.flight]?).branches[place.branch]?

/-- The read at a place. -/
def read? (p : Pool) (place : Place) : Option Read :=
  match p.branch? place, place.cell? with
  | some (.reading r), none => some r
  | some (.looking r), none => some r
  | some (.scanning scan), some k =>
    match scan.cells[k]? with
    | some (.reading r) => some r
    | _ => none
  | _, _ => none

/-- All reads that have not ended. -/
def reads (p : Pool) : List Read :=
  p.flights.flatMap fun fl => fl.branches.flatMap Branch.reads

/-- How many reads hold a slot. -/
def holders (p : Pool) : Nat :=
  p.reads.countP fun r => r.state ≠ .waiting

/-- Replaces the session and one call. -/
def update (p : Pool) (i : Nat) (next : Session × Flight) : Pool :=
  { p with session := next.1, flights := p.flights.set i next.2 }

def setCell (fl : Flight) (b : Nat) (scan : Scan) (k : Nat) (cell : Cell) : Flight :=
  fl.setBranch b (.scanning { scan with cells := scan.cells.set k cell })

/-- A new call, taken to its first stop. -/
def begin (call : Call) (p : Pool) : Pool :=
  let (session, fl) := p.session.beginCall call
  { p with session, flights := p.flights ++ [fl] }

/-- One turn at one place, if it is possible there. -/
def turn? (files : Files) (turn : Turn) (place : Place) (p : Pool) : Option Pool := do
  let fl ← p.flights[place.flight]?
  let branch ← fl.branches[place.branch]?
  let b := place.branch
  let s := p.session
  match turn, branch, place.cell? with
  | .start, .visiting path, none => some (p.update place.flight (s.visit b path fl))
  | .start, .scanning scan, some k =>
    match scan.cells[k]? with
    | some (.idle path) =>
      let (s, cell) := s.openCell scan.name path
      some (p.update place.flight (s, setCell fl b scan k cell))
    | _ => none
  | .take, .reading r, none =>
    if r.state = .waiting ∧ p.holders < p.slots then
      let (s, r) := s.takeText files r
      some (p.update place.flight (s, fl.setBranch b (.reading r)))
    else none
  | .take, .looking r, none =>
    if r.state = .waiting ∧ p.holders < p.slots then
      let (s, r) := s.takeText files r
      some (p.update place.flight (s, fl.setBranch b (.looking r)))
    else none
  | .take, .scanning scan, some k =>
    match scan.cells[k]? with
    | some (.reading r) =>
      if r.state = .waiting ∧ p.holders < p.slots then
        let (s, r) := s.takeText files r
        some (p.update place.flight (s, setCell fl b scan k (.reading r)))
      else none
    | _ => none
  | .complete, .reading r, none =>
    match r.state with
    | .holding text? =>
      some (p.update place.flight
        (s.endRead r text?, { fl.finish b with value? := some (.text (Contents.textRead text?)) }))
    | .waiting => none
  | .complete, .looking r, none =>
    match r.state with
    | .holding text? => some (p.update place.flight (s.endLookUp b r text? fl))
    | .waiting => none
  | .complete, .scanning scan, some k =>
    match scan.cells[k]? with
    | some (.reading r) =>
      match r.state with
      | .holding text? =>
        some (p.update place.flight (s.endRead r text?,
          setCell fl b scan k
            (.settled r.path (Source.importsName (Contents.textRead text?) scan.name))))
      | .waiting => none
    | _ => none
  | .gather, .scanning scan, none =>
    if scan.isSettled then some (p.update place.flight (s.endScan b scan fl)) else none
  | _, _, _ => none

end Pool
end Ancestry
