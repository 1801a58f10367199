import Provenance.Text.Digits
import Provenance.Text.WhiteSpace
import Provenance.Timestamp.Basic

/-!
# The text of a point in time

A point in time is written in UTC as RFC 3339 has it, with no fraction of a second or with one of
three, six or nine digits, whichever is the first to be exact.

Reading is more lenient.  Months, days, hours, minutes and seconds may have one digit; a year has up
to four digits, or a sign and any number of them; white space may stand before a number and before
what separates numbers; the date and the time are separated by a `T` or a blank; digits of the
fraction after the ninth are dropped; and the distance from UTC is `Z`, `UTC`, or signed hours and
minutes, with colons or white space between them.  A date without time and a time without a distance
from UTC are refused.
-/

namespace Provenance

namespace Timestamp

/-! ### Writing -/

/-- The year: four digits, or a sign and at least four digits when it is not of four digits. -/
def yearText (year : Int) : List Char :=
  if 0 ≤ year ∧ year ≤ 9999 then Text.fixedDigits 4 year.natAbs
  else
    (if year < 0 then '-' else '+') ::
      (if year.natAbs ≤ 9999 then Text.fixedDigits 4 year.natAbs else Nat.toDigits 10 year.natAbs)

/-- The fraction of a second. -/
def fractionText (nanos : Nat) : List Char :=
  if nanos = 0 then []
  else if nanos % 1000000 = 0 then '.' :: Text.fixedDigits 3 (nanos / 1000000)
  else if nanos % 1000 = 0 then '.' :: Text.fixedDigits 6 (nanos / 1000)
  else '.' :: Text.fixedDigits 9 nanos

/-- The text of a point in time. -/
def text (t : Timestamp) : List Char :=
  yearText t.date.year ++ '-' :: Text.fixedDigits 2 t.date.month ++
    '-' :: Text.fixedDigits 2 t.date.day ++ 'T' :: Text.fixedDigits 2 t.time.hour ++
    ':' :: Text.fixedDigits 2 t.time.minute ++ ':' :: Text.fixedDigits 2 t.time.second ++
    fractionText t.time.nanos ++ ['Z']

/-! ### Reading -/

/-- A number of one to `most` digits, after white space. -/
def readNumber? (most : Nat) (text : List Char) : Option (Nat × List Char) :=
  match Text.takeDigits most (Text.trimStart text) with
  | ([], _) => none
  | (digits, rest) => some (Text.value digits, rest)

/-- A year, after white space. -/
def readYear? (text : List Char) : Option (Int × List Char) :=
  match Text.trimStart text with
  | '-' :: rest => (Text.digits? rest).map fun found => (-(Text.value found.1 : Int), found.2)
  | '+' :: rest => (Text.digits? rest).map fun found => ((Text.value found.1 : Int), found.2)
  | start => (readNumber? 4 start).map fun found => ((found.1 : Int), found.2)

/-- One character, after white space. -/
def readMark? (mark : Char) (text : List Char) : Option (List Char) :=
  match Text.trimStart text with
  | c :: rest => if c = mark then some rest else none
  | [] => none

/-- A date. -/
def readDate? (text : List Char) : Option (Date × List Char) := do
  let (year, text) ← readYear? text
  let text ← readMark? '-' text
  let (month, text) ← readNumber? 2 text
  let text ← readMark? '-' text
  let (day, text) ← readNumber? 2 text
  return (⟨year, month, day⟩, text)

/-- A fraction of a second in nanoseconds, if there is a decimal point. -/
def readFraction? : List Char → Option (Nat × List Char)
  | '.' :: rest =>
    match Text.takeDigits 9 rest with
    | ([], _) => none
    | (digits, rest) =>
      some (Text.value digits * Nat.pow 10 (9 - digits.length), (Text.digits rest).2)
  | rest => some (0, rest)

/-- A time of day. -/
def readTime? (text : List Char) : Option (TimeOfDay × List Char) := do
  let (hour, text) ← readNumber? 2 text
  let text ← readMark? ':' text
  let (minute, text) ← readNumber? 2 text
  let text ← readMark? ':' text
  let (second, text) ← readNumber? 2 text
  let (nanos, text) ← readFraction? text
  return (⟨hour, minute, second, nanos⟩, text)

/-- Exactly two digits. -/
def readPair? : List Char → Option (Nat × List Char)
  | a :: b :: rest =>
    match Text.digit? a, Text.digit? b with
    | some a, some b => some (10 * a + b, rest)
    | _, _ => none
  | _ => none

/-- Hours and minutes, with colons or white space between them. -/
def readHoursMinutes? (text : List Char) : Option (Nat × List Char) := do
  let (hours, text) ← readPair? text
  let (minutes, text) ← readPair? (text.dropWhile fun c => c = ':' || Text.isWhiteSpace c)
  if minutes < 60 then return (hours * 60 + minutes, text) else none

/-- The distance from UTC in minutes. -/
def readOffset? : List Char → Option (Int × List Char)
  | c :: rest =>
    if c = 'Z' ∨ c = 'z' then some (0, rest)
    else if c = '+' then (readHoursMinutes? rest).map fun found => ((found.1 : Int), found.2)
    else if c = '-' ∨ c = '\u2212' then
      (readHoursMinutes? rest).map fun found => (-(found.1 : Int), found.2)
    else
      match c :: rest with
      | u :: t :: c :: rest =>
        if u.toUpper = 'U' ∧ t.toUpper = 'T' ∧ c.toUpper = 'C' then some (0, rest) else none
      | _ => none
  | [] => none

/-- Reads the text of a point in time. -/
def read? (text : String) : Option Timestamp := do
  let (date, text) ← readDate? text.toList
  let text ← match text with
    | c :: rest => if c = 'T' ∨ c = 't' ∨ c = ' ' then some rest else none
    | [] => none
  let (time, text) ← readTime? text
  let (ahead, text) ← readOffset? (Text.trimStart text)
  if Text.trimStart text = [] then ofLocal? date time ahead else none

end Timestamp

end Provenance
