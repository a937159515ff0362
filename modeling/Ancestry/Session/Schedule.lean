import Ancestry.Session.Pool

/-!
The schedule of a pool: turns are taken first come, first served. Reads that find no free slot queue
up for one. While reads are on hold a read that has its text stops there, until all of them are
released in the order in which they stopped.
-/

namespace Ancestry

/-- What is due at a place. -/
inductive Due where
  | start
  /-- A slot was set aside for the read here. -/
  | granted
  /-- The read here is no longer on hold. -/
  | released
  /-- The last cell of the scan here has settled. -/
  | joined
  | gather
  deriving DecidableEq, Repr

/-- A read in the queue for slots, with a slot set aside for it or not. -/
structure Waiter where
  place : Place
  granted : Bool
  deriving DecidableEq, Repr

structure Schedule where
  pool : Pool
  /-- What is due, oldest first. -/
  queue : List (Due × Place) := []
  /-- Slots that are neither held nor set aside. -/
  free : Nat
  waiters : List Waiter := []
  /-- The reads on hold, oldest first. -/
  held : List Place := []
  /-- Whether reads stop when they have their text. -/
  holding : Bool := true

namespace Schedule

def ofSession (s : Session) (slots : Nat) : Schedule :=
  { pool := ⟨s, slots, []⟩, free := slots }

/-- The same schedule on a session that a direct call or an event has moved on. -/
def withSession (s : Session) (d : Schedule) : Schedule :=
  { d with pool := { d.pool with session := s } }

def enqueue (entries : List (Due × Place)) (d : Schedule) : Schedule :=
  { d with queue := d.queue ++ entries }

def turn (files : Files) (turn : Turn) (place : Place) (d : Schedule) : Schedule :=
  { d with pool := (d.pool.turn? files turn place).getD d.pool }

/-- Sets a slot aside for the first read in the queue that has none yet. -/
def grantNext (d : Schedule) : Schedule :=
  match d.waiters.find? (!·.granted) with
  | none => d
  | some w =>
    { d with
      free := d.free - 1
      waiters := d.waiters.map fun v => if v.place = w.place then { v with granted := true } else v
      queue := d.queue ++ [(.granted, w.place)] }

def freeSlot (d : Schedule) : Schedule :=
  { d with free := d.free + 1 }.grantNext

/-- What becomes due by a turn: the files that the search came to, the cells of a new scan, and the
end of a scan whose last cell has settled. -/
def consequences (before : Option Flight) (after : Pool) (place : Place) : List (Due × Place) :=
  match after.flights[place.flight]? with
  | none => []
  | some fl =>
    let oldBranches := (before.map (·.branches)).getD []
    let visits := (List.range fl.branches.length).drop (oldBranches.length.max 1) |>.map fun b =>
      (Due.start, { flight := place.flight, branch := b })
    let scan := match oldBranches[place.branch]?, fl.branches[place.branch]?, place.cell? with
      | some (.scanning _), some (.scanning scan), some k =>
        if scan.isSettled && (scan.cells[k]?.map Cell.isSettled).getD false then
          [(Due.joined, { place with cell? := none })]
        else []
      | some (.scanning _), _, _ => []
      | _, some (.scanning scan), _ =>
        (List.range scan.cells.length).map fun k => (Due.start, { place with cell? := some k })
      | _, _, _ => []
    visits ++ scan

/-- Ends a read: its slot is free again, then the call goes on. -/
def complete (files : Files) (place : Place) (d : Schedule) : Schedule :=
  let d := d.freeSlot
  let before := d.pool.flights[place.flight]?
  let d := d.turn files .complete place
  d.enqueue (consequences before d.pool place)

/-- Lets a read that has a slot take its text. A read that fails ends at once. -/
def take (files : Files) (place : Place) (d : Schedule) : Schedule :=
  let failed := ((d.pool.read? place).map fun r => (files r.path).isNone).getD true
  let d := d.turn files .take place
  if failed || !d.holding then d.complete files place else { d with held := d.held ++ [place] }

/-- Sends a new read at a place for a slot, if there is one. -/
def acquire (files : Files) (place : Place) (d : Schedule) : Schedule :=
  match d.pool.read? place with
  | none => d
  | some _ =>
    if 0 < d.free && d.waiters.isEmpty then { d with free := d.free - 1 }.take files place
    else { d with waiters := d.waiters ++ [⟨place, false⟩] }

/-- Does what is due at a place. -/
def serve (files : Files) (due : Due) (place : Place) (d : Schedule) : Schedule :=
  let before := d.pool.flights[place.flight]?
  match due with
  | .start =>
    let d := d.turn files .start place
    (d.enqueue (consequences before d.pool place)).acquire files place
  | .granted =>
    let d := { d with waiters := d.waiters.filter (·.place ≠ place) }
    (if 0 < d.free then d.grantNext else d).take files place
  | .released => d.complete files place
  | .joined => d.enqueue [(.gather, place)]
  | .gather =>
    let d := d.turn files .gather place
    d.enqueue (consequences before d.pool place)

/-- Serves what is due until nothing is, at most `n` times. -/
def drain (files : Files) : Nat → Schedule → Schedule
  | 0, d => d
  | n + 1, d =>
    match d.queue with
    | [] => d
    | (due, place) :: queue => drain files n ({ d with queue }.serve files due place)

/-- How often something can become due. A call comes to each known file once, and each time to at
most as many files and cells as are known. -/
def bound (d : Schedule) : Nat :=
  let cells := d.pool.flights.flatMap fun fl => fl.branches.flatMap fun
    | .scanning scan => scan.cells
    | _ => []
  let known := d.pool.session.known.length + cells.length
  (d.pool.flights.length + 1) * (known + 2) * (8 * known + 24)

def run (files : Files) (d : Schedule) : Schedule :=
  d.drain files d.bound

/-- Begins a call and lets it run as far as it can. -/
def begin (files : Files) (call : Call) (d : Schedule) : Schedule :=
  let place : Place := { flight := d.pool.flights.length, branch := 0 }
  let d := { d with pool := d.pool.begin call }
  ((d.enqueue (consequences none d.pool place)).acquire files place).run files

/-- Releases all reads and lets every call run to its end. Yields the answers in the order in which
the calls began. -/
def release (files : Files) (d : Schedule) : List (Option Answer) × Schedule :=
  let d := { d with holding := false, held := [] }.enqueue (d.held.map fun place => (.released, place))
  let d := d.run files
  (d.pool.flights.map Flight.answer?,
    { d with holding := true, pool := { d.pool with flights := [] } })

/-- A call that has a session to itself, with its files read as soon as they have a slot: the answer,
and what the session becomes. -/
def ask (files : Files) (slots : Nat) (call : Call) (s : Session) : Option Answer × Session :=
  let d := { ofSession s slots with holding := false }.begin files call
  (d.pool.flights.head?.bind Flight.answer?, d.pool.session)

/-- The ancestors of the component that a file defines, as a call finds them that has a session to
itself. -/
def ancestorsOfFile (files : Files) (slots : Nat) (path : String) (s : Session) :
    List Record × Session :=
  match ask files slots (.ancestorsOfFile path) s with
  | (some (.records records), s) => (records, s)
  | (_, s) => ([], s)

/-- Whether the call that began last is at its end. -/
def lastFinished (d : Schedule) : Bool :=
  ((d.pool.flights.getLast?).bind Flight.answer?).isSome

end Schedule
end Ancestry
