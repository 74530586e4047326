import ScriptKernel.Text.Pieces

/-!
Dates and times of day from a count of seconds. A clock shows one moment in
one time zone; the calendar is the Gregorian one in both directions.
-/

namespace ScriptKernel

/-- A moment in seconds since the beginning of 1970 in UTC, and the zone in
which it is shown. -/
structure Clock where
  seconds : Int := 0
  zone : String := "UTC"
  /-- Seconds east of UTC. -/
  offset : Int := 0
deriving Repr, DecidableEq

structure Date where
  year : Int
  month : Nat
  day : Nat
deriving Repr, DecidableEq

namespace Date

/-- The date so many days after the first of January 1970. Years are counted
from March, so that a leap day ends its year, in cycles of 400 years. -/
def ofDays (days : Int) : Date :=
  let shifted := days + 719468
  let cycle := shifted / 146097
  let dayOfCycle := (shifted % 146097).toNat
  let yearOfCycle :=
    (dayOfCycle - dayOfCycle / 1460 + dayOfCycle / 36524 - dayOfCycle / 146096) / 365
  let dayOfYear := dayOfCycle - (365 * yearOfCycle + yearOfCycle / 4 - yearOfCycle / 100)
  let monthFromMarch := (5 * dayOfYear + 2) / 153
  let day := dayOfYear - (153 * monthFromMarch + 2) / 5 + 1
  let month := if monthFromMarch < 10 then monthFromMarch + 3 else monthFromMarch - 9
  let year := (yearOfCycle : Int) + cycle * 400
  ⟨if month ≤ 2 then year + 1 else year, month, day⟩

def isLeap (year : Int) : Bool :=
  year % 4 == 0 && (year % 100 != 0 || year % 400 == 0)

def daysBefore : List Nat :=
  [0, 31, 59, 90, 120, 151, 181, 212, 243, 273, 304, 334]

def dayOfYear (d : Date) : Nat :=
  let before := daysBefore[d.month - 1]?.getD 0
  before + d.day + (if isLeap d.year && 2 < d.month then 1 else 0)

def daysInYear (year : Int) : Nat :=
  if isLeap year then 366 else 365

end Date

structure Moment where
  date : Date
  hour : Nat
  minute : Nat
  second : Nat
  /-- Days since Sunday. -/
  weekday : Nat
deriving Repr, DecidableEq

namespace Clock

/-- The beginning of the calendar, the first of March of the year -292277022400,
in seconds before 1970. -/
def beginning : Int := 9223372028741760000

/-- The seconds that the clock shows. The calendar is as long as 64 bits can
count seconds, and after its end it starts again. -/
def shown (c : Clock) : Int :=
  (c.seconds + c.offset + beginning) % UInt64.size - beginning

def moment (c : Clock) : Moment :=
  let shown := c.shown
  let days := shown / 86400
  let second := (shown % 86400).toNat
  { date := Date.ofDays days
    hour := second / 3600
    minute := second / 60 % 60
    second := second % 60
    weekday := ((days + 4) % 7).toNat }

end Clock

namespace Moment

def daysSinceMonday (m : Moment) : Nat :=
  (m.weekday + 6) % 7

/-- The week of the year and the year it belongs to. Weeks start on Monday,
and a week belongs to the year that holds its Thursday. -/
def isoWeek (m : Moment) : Int × Nat :=
  let thursday : Int := (m.date.dayOfYear : Int) + 3 - m.daysSinceMonday
  let year := m.date.year
  if thursday < 1 then
    (year - 1, ((thursday + Date.daysInYear (year - 1) - 1) / 7 + 1).toNat)
  else if (Date.daysInYear year : Int) < thursday then
    (year + 1, ((thursday - Date.daysInYear year - 1) / 7 + 1).toNat)
  else (year, ((thursday - 1) / 7 + 1).toNat)

end Moment

end ScriptKernel
