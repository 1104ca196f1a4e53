import Purels.Go.NetIP

/-!
# Times

`time.Time` as the program uses it: an instant, in nanoseconds since the Unix
epoch.  Every expiry enters the program through `time.Parse(time.RFC3339, …)`
and leaves it through `time.MarshalJSON` or a `timestamptz` column; the days of
the statistics are read and counted in a configured zone.

* `parseRFC3339`, the general layout parser on the RFC 3339 layout.
* `marshalsJSON`, the years JSON can carry.
* `toMicroseconds`, the resolution of a `timestamptz` column.
* `Zone`, with `Zone.date` and `Zone.addDays`, the calendar of a location.
-/

namespace Purels.Go

/-- Nanoseconds since the Unix epoch. -/
abbrev Instant := Int

/-- One second, as a number of nanoseconds. -/
def second : Int := 1000000000

/-- `daysSinceEpoch`: days from the epoch to a date of the proleptic Gregorian
calendar, counting years from March so that a leap day ends its year. -/
def daysFromCivil (year month day : Int) : Int :=
  let y := if month ≤ 2 then year - 1 else year
  let m := if month ≤ 2 then month + 9 else month - 3
  y * 365 + y / 4 - y / 100 + y / 400 + (153 * m + 2) / 5 + day - 1 - 719468

def isLeap (year : Nat) : Bool := year % 4 == 0 && (year % 100 != 0 || year % 400 == 0)

/-- `daysIn`. -/
def daysIn (month year : Nat) : Nat :=
  if month = 2 then (if isLeap year then 29 else 28)
  else if month = 4 ∨ month = 6 ∨ month = 9 ∨ month = 11 then 30
  else 31

/-- `getnum`: one or two digits, exactly two when `fixed`. -/
def getnum (fixed : Bool) : GoString → Option (Nat × GoString)
  | a :: b :: rest =>
    if !isDigit a then none
    else if isDigit b then some (decimal [a, b], rest)
    else if fixed then none
    else some (decimal [a], b :: rest)
  | [a] => if isDigit a && !fixed then some (decimal [a], []) else none
  | [] => none

/-- A literal byte of the layout. -/
def skipByte (c : UInt8) : GoString → Option GoString
  | d :: rest => if d = c then some rest else none
  | [] => none

/-- The fraction of a second that may follow the seconds although the layout
has none: a comma or a period and digits, of which nine count. -/
def fraction : GoString → Nat × GoString
  | c :: d :: rest =>
    if (c = 0x2E ∨ c = 0x2C) ∧ isDigit d then
      let digits := d :: rest.takeWhile isDigit
      let nine := (digits ++ List.replicate 9 0x30).take 9
      (decimal nine, rest.dropWhile isDigit)
    else (0, c :: d :: rest)
  | s => (0, s)

/-- `Z07:00`: the offset east of UTC in seconds.  Nothing may follow. -/
def zoneOffset : GoString → Option Int
  | [0x5A] => some 0
  | [sign, h1, h2, 0x3A, m1, m2] =>
    match getnum true [h1, h2], getnum true [m1, m2] with
    | some (hours, _), some (minutes, _) =>
      if hours > 24 ∨ minutes > 60 then none
      else if sign = 0x2B then some ((hours * 60 + minutes) * 60 : Nat)
      else if sign = 0x2D then some (-((hours * 60 + minutes) * 60 : Nat))
      else none
    | _, _ => none
  | _ => none

/-- `time.Parse(time.RFC3339, value)`. -/
def parseRFC3339 (value : GoString) : Option Instant := do
  guard (4 ≤ value.length ∧ (value.take 4).all isDigit)
  let year := decimal (value.take 4)
  let value ← skipByte 0x2D (value.drop 4)
  let (month, value) ← getnum true value
  guard (1 ≤ month ∧ month ≤ 12)
  let value ← skipByte 0x2D value
  let (day, value) ← getnum true value
  let value ← skipByte 0x54 value
  let (hour, value) ← getnum false value
  guard (hour < 24)
  let value ← skipByte 0x3A value
  let (minute, value) ← getnum true value
  guard (minute < 60)
  let value ← skipByte 0x3A value
  let (sec, value) ← getnum true value
  guard (sec < 60)
  let (nanoseconds, value) := fraction value
  let offset ← zoneOffset value
  guard (1 ≤ day ∧ day ≤ daysIn month year)
  let seconds : Int :=
    daysFromCivil year month day * 86400 + hour * 3600 + minute * 60 + sec - offset
  some (seconds * second + nanoseconds)

example : parseRFC3339 (lit "2024-02-29T9:30:00.5+01:00") = some 1709195400500000000 := by
  decide

/-- `time.MarshalJSON` succeeds: the year, read in a zone `offset` seconds east
of UTC, is between 0 and 9999. -/
def marshalsJSON (offset : Int) (t : Instant) : Bool :=
  -62167219200 * second ≤ t + offset * second && t + offset * second < 253402300800 * second

/-- A `timestamptz` column keeps whole microseconds. -/
def toMicroseconds (t : Instant) : Instant := t / 1000 * 1000

theorem toMicroseconds_mono {a b : Instant} (h : a ≤ b) : toMicroseconds a ≤ toMicroseconds b := by
  unfold toMicroseconds
  exact Int.mul_le_mul_of_nonneg_right (Int.ediv_le_ediv (by decide) h) (by decide)

theorem toMicroseconds_toMicroseconds (t : Instant) :
    toMicroseconds (toMicroseconds t) = toMicroseconds t := by
  rw [toMicroseconds, toMicroseconds, Int.mul_ediv_cancel _ (by decide)]

/-! ## Zones -/

/-- What `Location.lookup` knows of a second: the offset in use, in seconds east
of UTC, and the seconds from and to which it is used. -/
structure ZoneSpan where
  offset : Int
  start : Int
  stop : Int

/-- `time.Location`, as the table `lookup` reads. -/
structure Zone where
  lookup : Int → ZoneSpan

namespace Zone

def utc : Zone := ⟨fun _ => ⟨0, -2 ^ 63, 2 ^ 63 - 1⟩⟩

/-- The local clock at `t`, in seconds. -/
def localSeconds (zone : Zone) (t : Instant) : Int := t / second + (zone.lookup (t / second)).offset

/-- The calendar day at `t`, in days since the epoch. -/
def day (zone : Zone) (t : Instant) : Int := zone.localSeconds t / 86400

/-- The time of day at `t`, in nanoseconds. -/
def clock (zone : Zone) (t : Instant) : Int :=
  zone.localSeconds t % 86400 * second + t % second

/-- `time.Date` for a calendar day and a time of day.  The offset is the one in
use at the same reading of UTC, unless the span of that one ends before. -/
def date (zone : Zone) (day clock : Int) : Instant :=
  let unix := day * 86400 + clock / second
  let span := zone.lookup unix
  let utc := unix - span.offset
  let offset :=
    if span.offset ≠ 0 ∧ (utc < span.start ∨ span.stop ≤ utc) then (zone.lookup utc).offset
    else span.offset
  (unix - offset) * second + clock % second

/-- `t.AddDate(0, 0, days)`. -/
def addDays (zone : Zone) (t : Instant) (days : Int) : Instant :=
  zone.date (zone.day t + days) (zone.clock t)

end Zone

/-- `time.Parse("2006-01-02", value)`, in days since the epoch. -/
def parseDate (value : GoString) : Option Int := do
  guard (4 ≤ value.length ∧ (value.take 4).all isDigit)
  let year := decimal (value.take 4)
  let value ← skipByte 0x2D (value.drop 4)
  let (month, value) ← getnum true value
  guard (1 ≤ month ∧ month ≤ 12)
  let value ← skipByte 0x2D value
  let (day, value) ← getnum true value
  guard (value = [] ∧ 1 ≤ day ∧ day ≤ daysIn month year)
  some (daysFromCivil year month day)

end Purels.Go
