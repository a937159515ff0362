/-!
Days and times of the calendar in use, and their shift to universal time.
-/

namespace Ancestry.Calendar

structure Date where
  year : Nat
  month : Nat
  day : Nat
  deriving DecidableEq, Repr

/-- A date with a time of day and, if it is known, the distance from universal time in minutes. -/
structure Moment where
  date : Date
  hour : Nat
  minute : Nat
  second : Nat
  micro : Nat := 0
  offset? : Option Int := none
  deriving DecidableEq, Repr

def isLeap (year : Nat) : Bool :=
  year % 4 = 0 && (year % 100 ≠ 0 || year % 400 = 0)

def daysInMonth (year month : Nat) : Nat :=
  if month = 2 then (if isLeap year then 29 else 28)
  else if month = 4 || month = 6 || month = 9 || month = 11 then 30
  else 31

/-- Why numbers are no date or time. -/
inductive Fault where
  | year (year : Nat)
  | month
  | day
  | hour
  | minute
  | second
  /-- A distance from universal time of a day or more, in minutes. -/
  | offset (minutes : Int)
  deriving DecidableEq, Repr

/-- A distance in time as a count of days and of seconds within a day, of which the ones that are
zero are left out. -/
def spanShown (minutes : Int) : String :=
  let days := minutes / 1440
  let seconds := minutes % 1440 * 60
  "datetime.timedelta(" ++ ", ".intercalate
    ((if days = 0 then [] else ["days=" ++ toString days]) ++
      (if seconds = 0 then [] else ["seconds=" ++ toString seconds])) ++ ")"

def Fault.message : Fault → String
  | year y => "year " ++ toString y ++ " is out of range"
  | month => "month must be in 1..12"
  | day => "day is out of range for month"
  | hour => "hour must be in 0..23"
  | minute => "minute must be in 0..59"
  | second => "second must be in 0..59"
  | offset minutes =>
    "offset must be a timedelta strictly between -timedelta(hours=24) and " ++
      "timedelta(hours=24), not " ++ spanShown minutes ++ "."

def Date.fault? (d : Date) : Option Fault :=
  if d.year = 0 then some (.year d.year)
  else if d.month = 0 || 12 < d.month then some .month
  else if d.day = 0 || daysInMonth d.year d.month < d.day then some .day
  else none

/-- The first fault of a moment. The distance from universal time is looked at first. -/
def Moment.fault? (m : Moment) : Option Fault :=
  (m.offset?.filter (1440 ≤ ·.natAbs)).map .offset |>.or <| m.date.fault?.or <|
    if 23 < m.hour then some .hour
    else if 59 < m.minute then some .minute
    else if 59 < m.second then some .second
    else none

def Date.next (d : Date) : Date :=
  if d.day < daysInMonth d.year d.month then { d with day := d.day + 1 }
  else if d.month < 12 then ⟨d.year, d.month + 1, 1⟩
  else ⟨d.year + 1, 1, 1⟩

def Date.previous (d : Date) : Date :=
  if 1 < d.day then { d with day := d.day - 1 }
  else if 1 < d.month then ⟨d.year, d.month - 1, daysInMonth d.year (d.month - 1)⟩
  else ⟨d.year - 1, 12, 31⟩

/-- The last year that the calendar knows; the first one is one. -/
def lastYear : Nat := 9999

/-- The same moment in universal time, unless that is outside of the years of the calendar. A
distance is less than a day, so the date moves by at most one. -/
def Moment.toUtc? (m : Moment) : Option Moment :=
  let minutes : Int := (m.hour * 60 + m.minute : Nat) - m.offset?.getD 0
  let date :=
    if minutes < 0 then m.date.previous else if 1440 ≤ minutes then m.date.next else m.date
  let inDay := (minutes % 1440).toNat
  if date.year = 0 || lastYear < date.year then none
  else some { m with date, hour := inDay / 60, minute := inDay % 60, offset? := some 0 }

/-- How many days are before a date, from the first of January of the year one on. -/
def Date.daysBefore (d : Date) : Nat :=
  let y := d.year - 1
  y * 365 + y / 4 - y / 100 + y / 400 +
    (List.range (d.month - 1)).foldl (fun days k => days + daysInMonth d.year (k + 1)) 0 +
    (d.day - 1)

/-- The seconds up to a moment in universal time. -/
def Moment.seconds (m : Moment) : Int :=
  (((m.date.daysBefore * 24 + m.hour) * 60 + m.minute : Nat) - m.offset?.getD 0) * 60 + m.second

/-- Whether two moments are the same one. Those with a known distance from universal time are
compared there, and those without it never equal them. -/
def Moment.same (a b : Moment) : Bool :=
  a.offset?.isSome = b.offset?.isSome && a.seconds = b.seconds && a.micro = b.micro

/-- A number with zeros in front up to a width. -/
def padded (width n : Nat) : String :=
  let digits := Nat.toDigits 10 n
  String.ofList (List.replicate (width - digits.length) '0' ++ digits)

def Date.text (d : Date) : String :=
  padded 4 d.year ++ "-" ++ padded 2 d.month ++ "-" ++ padded 2 d.day

/-- The date without dividers. The year has no zeros in front. -/
def Date.stamp (d : Date) : String :=
  toString d.year ++ padded 2 d.month ++ padded 2 d.day

/-- A distance from universal time, in hours and minutes with a sign. -/
def offsetText (minutes : Int) : String :=
  (if minutes < 0 then "-" else "+") ++ padded 2 (minutes.natAbs / 60) ++ ":" ++
    padded 2 (minutes.natAbs % 60)

/-- The moment with `divider` between date and time. Millionths of a second are left out where
there are none. -/
def Moment.text (divider : String) (m : Moment) : String :=
  m.date.text ++ divider ++ padded 2 m.hour ++ ":" ++ padded 2 m.minute ++ ":" ++
    padded 2 m.second ++ (if m.micro = 0 then "" else "." ++ padded 6 m.micro) ++
    (m.offset?.map offsetText).getD ""

end Ancestry.Calendar
