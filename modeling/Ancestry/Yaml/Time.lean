import Ancestry.Calendar

/-!
Times as scalars write them: a date, or a date with a time of day and perhaps the distance from
universal time.
-/

namespace Ancestry.Yaml
open Ancestry.Calendar

/-- A text without the line feed at its end. -/
def dropLineEnd (s : List Char) : List Char :=
  if s.getLast? = some '\n' then s.dropLast else s

/-- Reads between `least` and `most` digits, as many as there are. -/
def digits? (least most : Nat) (s : List Char) : Option (Nat × List Char) :=
  let run := (s.take most).takeWhile Char.isDigit
  if run.length < least then none
  else some (run.foldl (fun n c => n * 10 + (c.toNat - 48)) 0, s.drop run.length)

/-- The parts of a time as it is written. -/
structure WrittenTime where
  date : Date
  /-- Hour, minute, second and digits of the fraction. -/
  clock? : Option (Nat × Nat × Nat × List Char) := none
  /-- Whether the distance from universal time is negative, its hours and its minutes. -/
  zone? : Option (Bool × Nat × Nat) := none
  deriving DecidableEq, Repr

def char? (c : Char) : List Char → Option (List Char)
  | d :: s => if c = d then some s else none
  | [] => none

/-- Reads the distance from universal time to the end of the text. -/
def zone? (s : List Char) : Option (Option (Bool × Nat × Nat)) :=
  match s.dropWhile fun c => c = ' ' || c = '\t' with
  | [] => if s = [] then some none else none
  | ['Z'] => some (some (false, 0, 0))
  | sign :: t =>
    if sign = '-' || sign = '+' then do
      let (hours, t) ← digits? 1 2 t
      match t with
      | [] => some (some (sign = '-', hours, 0))
      | _ =>
        let (minutes, t) ← digits? 2 2 (← char? ':' t)
        if t = [] then some (some (sign = '-', hours, minutes)) else none
    else none

/-- Reads a date, or a date with a time of day. A line feed may follow. -/
def time? (s : List Char) : Option WrittenTime := do
  let s := dropLineEnd s
  let (year, s) ← digits? 4 4 s
  let (month, s) ← digits? 1 2 (← char? '-' s)
  let (day, s) ← digits? 1 2 (← char? '-' s)
  let date : Date := ⟨year, month, day⟩
  match s with
  | [] => some { date }
  | c :: rest =>
    let clock ←
      if c = 'T' || c = 't' then some rest
      else if c = ' ' || c = '\t' then
        some (rest.dropWhile fun c => c = ' ' || c = '\t')
      else none
    let (hour, t) ← digits? 1 2 clock
    let (minute, t) ← digits? 2 2 (← char? ':' t)
    let (second, t) ← digits? 2 2 (← char? ':' t)
    let (fraction, t) := match t with
      | '.' :: t => (t.takeWhile Char.isDigit, t.dropWhile Char.isDigit)
      | t => ([], t)
    let zone? ← zone? t
    some { date, clock? := some (hour, minute, second, fraction), zone? }

/-- Whether a text looks like a time. A date alone has two digits for month and day then. -/
def isTime (s : List Char) : Bool :=
  match time? s with
  | some w => w.clock?.isSome || (dropLineEnd s).length = 10
  | none => false

/-- The distance from universal time in minutes. -/
def WrittenTime.offset? (w : WrittenTime) : Option Int :=
  w.zone?.map fun (negative, hours, minutes) =>
    let size : Int := hours * 60 + minutes
    if negative then -size else size

/-- The millionths of a second of the digits of a fraction. Further digits are dropped. -/
def micros (fraction : List Char) : Nat :=
  ((fraction ++ List.replicate 6 '0').take 6).foldl (fun n c => n * 10 + (c.toNat - 48)) 0

/-- The date, or the moment if there is a time of day. -/
def WrittenTime.read (w : WrittenTime) : Except Fault (Date ⊕ Moment) :=
  match w.clock? with
  | none =>
    match w.date.fault? with
    | some fault => .error fault
    | none => .ok (.inl w.date)
  | some (hour, minute, second, fraction) =>
    let moment : Moment := ⟨w.date, hour, minute, second, micros fraction, w.offset?⟩
    match moment.fault? with
    | some fault => .error fault
    | none => .ok (.inr moment)

end Ancestry.Yaml
