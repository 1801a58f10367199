import Provenance.Text.Digits
import Provenance.Timestamp.Basic
import Provenance.Toml.Basic

/-!
# TOML dates and times

A moment is a date, a time of day, or a date with a time of day, which may be followed by a distance
from UTC.
-/

namespace Provenance

namespace Toml

/-- A number of exactly `places` digits between two bounds. -/
def bounded? (places least most : Nat) (text : List Char) : Option (Nat × List Char) :=
  let found := Text.takeDigits places text
  let n := Text.value found.1
  if found.1.length = places ∧ least ≤ n ∧ n ≤ most then some (n, found.2) else none

/-- The text after one character. -/
def afterMark? (mark : Char) : List Char → Option (List Char)
  | c :: rest => if c = mark then some rest else none
  | [] => none

/-- The text after a date. -/
def afterDate? (text : List Char) : Option (List Char) := do
  let (year, text) ← bounded? 4 0 9999 text
  let text ← afterMark? '-' text
  let (month, text) ← bounded? 2 1 12 text
  let text ← afterMark? '-' text
  let (_, text) ← bounded? 2 1 (daysInMonth year month) text
  return text

/-- The text after a fraction of a second, if there is one. -/
def skipFraction (text : List Char) : List Char :=
  match text with
  | '.' :: rest => ((Text.digits? rest).map Prod.snd).getD text
  | _ => text

/-- The text after hours and minutes. -/
def afterHoursMinutes? (text : List Char) : Option (List Char) := do
  let (_, text) ← bounded? 2 0 23 text
  let text ← afterMark? ':' text
  let (_, text) ← bounded? 2 0 59 text
  return text

/-- The text after a time of day; the sixtieth second is a leap second. -/
def afterTime? (text : List Char) : Option (List Char) := do
  let text ← afterHoursMinutes? text
  let text ← afterMark? ':' text
  let (_, text) ← bounded? 2 0 60 text
  return skipFraction text

/-- The text after a distance from UTC, if there is one. -/
def skipOffset (text : List Char) : List Char :=
  match text with
  | c :: rest =>
    if c = 'Z' ∨ c = 'z' then rest
    else if c = '+' ∨ c = '-' then (afterHoursMinutes? rest).getD text
    else text
  | [] => []

/-- The text after the time of day that belongs to a date, if there is one. -/
def skipTimeOfDate (text : List Char) : List Char :=
  match text with
  | c :: rest =>
    if c = 'T' ∨ c = 't' ∨ c = ' ' then ((afterTime? rest).map skipOffset).getD text else text
  | [] => []

/-- The text after a moment. -/
def afterMoment? (text : List Char) : Option (List Char) :=
  ((afterDate? text).map skipTimeOfDate).or (afterTime? text)

end Toml

end Provenance
