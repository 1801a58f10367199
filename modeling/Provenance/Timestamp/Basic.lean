/-!
# Points in time

A point in time is a date and a time of day in UTC, to the nanosecond, on the proleptic Gregorian
calendar.  A second may be the sixtieth, which is a leap second.

`Timestamp.ofLocal?` takes a local date and time with its distance from UTC in minutes; the distance
is less than a day, so the date changes by at most one day.
-/

namespace Provenance

/-- Whether a year has a leap day. -/
def isLeapYear (year : Int) : Bool :=
  year % 4 = 0 ∧ (year % 100 ≠ 0 ∨ year % 400 = 0)

/-- The number of days of a month. -/
def daysInMonth (year : Int) (month : Nat) : Nat :=
  if month = 2 then if isLeapYear year then 29 else 28
  else if month = 4 ∨ month = 6 ∨ month = 9 ∨ month = 11 then 30
  else 31

/-- A day of the calendar. -/
structure Date where
  year : Int
  month : Nat
  day : Nat
deriving DecidableEq

namespace Date

/-- The first year that has dates. -/
def minYear : Int := -262143

/-- The last year that has dates. -/
def maxYear : Int := 262142

/-- Whether the calendar has the date. -/
def isValid (date : Date) : Bool :=
  minYear ≤ date.year ∧ date.year ≤ maxYear ∧ 1 ≤ date.month ∧ date.month ≤ 12 ∧
    1 ≤ date.day ∧ date.day ≤ daysInMonth date.year date.month

/-- The day after. -/
def next (date : Date) : Date :=
  if date.day < daysInMonth date.year date.month then { date with day := date.day + 1 }
  else if date.month < 12 then ⟨date.year, date.month + 1, 1⟩
  else ⟨date.year + 1, 1, 1⟩

/-- The day before. -/
def previous (date : Date) : Date :=
  if 1 < date.day then { date with day := date.day - 1 }
  else if 1 < date.month then
    ⟨date.year, date.month - 1, daysInMonth date.year (date.month - 1)⟩
  else ⟨date.year - 1, 12, 31⟩

end Date

/-- A time of day. -/
structure TimeOfDay where
  hour : Nat
  minute : Nat
  second : Nat
  nanos : Nat
deriving DecidableEq

/-- Whether a day has the time. -/
def TimeOfDay.isValid (time : TimeOfDay) : Bool :=
  time.hour < 24 ∧ time.minute < 60 ∧ time.second ≤ 60 ∧ time.nanos < 1000000000

/-- A point in time, in UTC. -/
structure Timestamp where
  date : Date
  time : TimeOfDay
  valid : (date.isValid && time.isValid) = true
deriving DecidableEq

namespace Timestamp

/-- The point in time of a date and a time of day in UTC, if both exist. -/
def of? (date : Date) (time : TimeOfDay) : Option Timestamp :=
  if h : (date.isValid && time.isValid) = true then some ⟨date, time, h⟩ else none

/-- The minutes of a day. -/
def dayMinutes : Nat := 1440

/-- The point in time of a local date and time of day that is `ahead` minutes ahead of UTC. -/
def ofLocal? (date : Date) (time : TimeOfDay) (ahead : Int) : Option Timestamp :=
  if (date.isValid && time.isValid) = true ∧ ahead.natAbs < dayMinutes then
    let minutes : Int := time.hour * 60 + time.minute - ahead
    let inDay := (minutes % dayMinutes).toNat
    let moved := { time with hour := inDay / 60, minute := inDay % 60 }
    if minutes < 0 then of? date.previous moved
    else if minutes < dayMinutes then of? date moved
    else of? date.next moved
  else none

end Timestamp

end Provenance
