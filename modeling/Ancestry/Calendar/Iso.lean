import Ancestry.Calendar
import Ancestry.Text.Quoted

/-!
Moments as the international standard writes them: a date, then any one character, then a time of
day of which minutes, seconds and fractions may be left out, and the distance from universal time.
The dividers inside a date and inside a time may be left out.
-/

namespace Ancestry.Calendar

/-- Why a text is no moment. -/
inductive IsoError where
  | notWritten (text : String)
  | fault (fault : Fault)
  deriving DecidableEq, Repr

def IsoError.message : IsoError → String
  | notWritten text => "Invalid isoformat string: " ++ Text.quoted text
  | fault f => f.message

/-- A number of exactly `width` digits, and what follows it. -/
def fixedNumber? (width : Nat) (s : List Char) : Option (Nat × List Char) :=
  let digits := s.take width
  if digits.length = width && digits.all Char.isDigit then
    some (digits.foldl (fun n c => n * 10 + (c.toNat - 48)) 0, s.drop width)
  else none

def isoDate? (s : List Char) : Option (Date × List Char) := do
  let (year, s) ← fixedNumber? 4 s
  match s with
  | '-' :: s =>
    let (month, s) ← fixedNumber? 2 s
    match s with
    | '-' :: s =>
      let (day, s) ← fixedNumber? 2 s
      return (⟨year, month, day⟩, s)
    | _ => none
  | s =>
    let (month, s) ← fixedNumber? 2 s
    let (day, s) ← fixedNumber? 2 s
    return (⟨year, month, day⟩, s)

/-- Hours, minutes, seconds and millionths, as many as there are up to the end of the text. -/
def isoClock? (s : List Char) : Option (Nat × Nat × Nat × Nat) := do
  let (hour, s) ← fixedNumber? 2 s
  let divided := s.head? = some ':'
  let part? (s : List Char) : Option (Nat × List Char) :=
    match s with
    | ':' :: t => if divided then fixedNumber? 2 t else none
    | t => if divided then none else fixedNumber? 2 t
  if s = [] then return (hour, 0, 0, 0)
  let (minute, s) ← part? s
  if s = [] then return (hour, minute, 0, 0)
  let (second, s) ← part? s
  match s with
  | [] => return (hour, minute, second, 0)
  | point :: digits =>
    if (point = '.' || point = ',') && digits ≠ [] && digits.all Char.isDigit then
      let (micro, _) ← fixedNumber? 6 (digits ++ List.replicate 6 '0')
      return (hour, minute, second, micro)
    else none

/-- The distance from universal time in minutes. -/
def isoOffset? : List Char → Option (Option Int)
  | [] => some none
  | ['Z'] => some (some 0)
  | sign :: s => do
    let (hour, minute, second, micro) ← isoClock? s
    if second ≠ 0 || micro ≠ 0 then none
    else
      let size : Int := hour * 60 + minute
      return some (if sign = '-' then -size else size)

def isoMoment? (s : List Char) : Option Moment := do
  let (date, s) ← isoDate? s
  match s with
  | [] => return ⟨date, 0, 0, 0, 0, none⟩
  | _ :: s =>
    let clock := s.takeWhile fun c => c ≠ '+' && c ≠ '-' && c ≠ 'Z'
    let (hour, minute, second, micro) ← isoClock? clock
    let offset? ← isoOffset? (s.drop clock.length)
    return ⟨date, hour, minute, second, micro, offset?⟩

/-- The moment that a text stands for. -/
def Moment.ofIso (text : String) : Except IsoError Moment :=
  match isoMoment? text.toList with
  | none => .error (.notWritten text)
  | some m =>
    match m.fault? with
    | some f => .error (.fault f)
    | none => .ok m

end Ancestry.Calendar
