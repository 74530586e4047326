import ScriptKernel.Calendar.Date

/-!
Texts of a moment: the internet timestamp, and layouts in which a percent sign
and a letter stand for a part of the date.
-/

namespace ScriptKernel.Calendar

def dayNames : List String :=
  ["Sunday", "Monday", "Tuesday", "Wednesday", "Thursday", "Friday", "Saturday"]

def monthNames : List String :=
  ["January", "February", "March", "April", "May", "June", "July", "August", "September",
   "October", "November", "December"]

def year (n : Int) : String :=
  if n < 0 then "-" ++ Text.padded '0' 4 n.natAbs else Text.padded '0' 4 n.natAbs

def two (n : Nat) : String := Text.padded '0' 2 n

/-- The last two digits of a year. Before the year zero they have a sign, which
takes the place of a zero. -/
def shortYear (n : Int) : String :=
  let last := n.tmod 100
  if last < 0 then "-" ++ Text.decimal (-last) else two last.toNat

def zoneOffset (seconds : Int) : String :=
  if seconds = 0 then "Z"
  else
    let minutes := seconds.natAbs / 60
    (if seconds < 0 ∧ 0 < minutes then "-" else "+") ++ two (minutes / 60) ++ ":" ++
      two (minutes % 60)

def isoDate (d : Date) : String :=
  year d.year ++ "-" ++ two d.month ++ "-" ++ two d.day

def time (m : Moment) : String :=
  two m.hour ++ ":" ++ two m.minute ++ ":" ++ two m.second

def timestamp (c : Clock) : String :=
  let m := c.moment
  isoDate m.date ++ "T" ++ time m ++ zoneOffset c.offset

def hour12 (m : Moment) : Nat :=
  if m.hour % 12 = 0 then 12 else m.hour % 12

def half (m : Moment) : String :=
  if m.hour < 12 then "AM" else "PM"

def dayName (m : Moment) : String := dayNames[m.weekday]?.getD ""

def monthName (m : Moment) : String := monthNames[m.date.month - 1]?.getD ""

def short (name : String) : String := String.ofList (name.toList.take 3)

def shortDate (m : Moment) : String :=
  two m.date.month ++ "/" ++ two m.date.day ++ "/" ++ shortYear m.date.year

def signedSeconds (offset : Int) : String :=
  (if offset < 0 then "-" else "+") ++ Text.padded '0' 4 offset.natAbs

def directive? (c : Clock) (m : Moment) (letter : Char) : Option String :=
  let (weekYear, week) := m.isoWeek
  match letter with
  | 'a' => some (short (dayName m))
  | 'A' => some (dayName m)
  | 'b' => some (short (monthName m))
  | 'B' => some (monthName m)
  | 'c' => some (short (dayName m) ++ " " ++ short (monthName m) ++ " " ++
      Text.padded ' ' 2 m.date.day ++ " " ++ time m ++ " " ++ Text.decimal m.date.year)
  | 'C' => some (Text.decimal (m.date.year.tdiv 100))
  | 'd' => some (two m.date.day)
  | 'D' => some (shortDate m)
  | 'e' => some (Text.padded ' ' 2 m.date.day)
  | 'F' => some (Text.decimal m.date.year ++ "-" ++ two m.date.month ++ "-" ++ two m.date.day)
  | 'g' => some (shortYear weekYear)
  | 'G' => some (Text.decimal weekYear)
  | 'H' => some (two m.hour)
  | 'I' => some (two (hour12 m))
  | 'j' => some (Text.padded '0' 3 m.date.dayOfYear)
  | 'm' => some (two m.date.month)
  | 'M' => some (two m.minute)
  | 'n' => some "\n"
  | 'p' => some (half m)
  | 'r' => some (two (hour12 m) ++ ":" ++ two m.minute ++ ":" ++ two m.second ++ " " ++ half m)
  | 'R' => some (two m.hour ++ ":" ++ two m.minute)
  | 'S' => some (two m.second)
  | 't' => some "\t"
  | 'T' => some (time m)
  | 'u' => some (Text.decimal (m.daysSinceMonday + 1))
  | 'U' => some (two week)
  | 'V' => some (two week)
  | 'w' => some (Text.decimal m.weekday)
  | 'W' => some (two (week - 1))
  | 'x' => some (shortDate m)
  | 'X' => some (time m)
  | 'y' => some (shortYear m.date.year)
  | 'Y' => some (Text.decimal m.date.year)
  | 'z' => some (signedSeconds c.offset)
  | 'Z' => some c.zone
  | '%' => some "%"
  | _ => none

def formatChars (c : Clock) (m : Moment) : List Char → String
  | [] => ""
  | '%' :: letter :: rest =>
    match directive? c m letter with
    | some text => text ++ formatChars c m rest
    | none => String.ofList ['%', letter] ++ formatChars c m rest
  | other :: rest => String.singleton other ++ formatChars c m rest

def format (c : Clock) (layout : String) : String :=
  formatChars c c.moment layout.toList

end ScriptKernel.Calendar
