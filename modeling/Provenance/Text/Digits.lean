/-!
# Digits

Decimal and hexadecimal digits of a text, and the numbers they stand for.  `fixedDigits` writes a
number in a given number of decimal places, with leading zeros.
-/

namespace Provenance

namespace Text

/-- The value of a decimal digit. -/
def digit? (c : Char) : Option Nat :=
  if '0' ≤ c ∧ c ≤ '9' then some (c.toNat - '0'.toNat) else none

/-- The value of a hexadecimal digit. -/
def hexDigit? (c : Char) : Option Nat :=
  if 'a' ≤ c ∧ c ≤ 'f' then some (c.toNat - 'a'.toNat + 10)
  else if 'A' ≤ c ∧ c ≤ 'F' then some (c.toNat - 'A'.toNat + 10)
  else digit? c

/-- The decimal digits at the start of a text, at most `most` of them, and the rest of it. -/
def takeDigits : Nat → List Char → List Nat × List Char
  | 0, text => ([], text)
  | _ + 1, [] => ([], [])
  | most + 1, c :: rest =>
    match digit? c with
    | some d =>
      let more := takeDigits most rest
      (d :: more.1, more.2)
    | none => ([], c :: rest)

/-- All decimal digits at the start of a text, and the rest of it. -/
def digits (text : List Char) : List Nat × List Char :=
  takeDigits text.length text

/-- At least one decimal digit, and the rest of the text. -/
def digits? (text : List Char) : Option (List Nat × List Char) :=
  match digits text with
  | ([], _) => none
  | found => some found

/-- The natural number that digits in a base stand for. -/
def valueInBase (base : Nat) (digits : List Nat) : Nat :=
  digits.foldl (fun n d => base * n + d) 0

/-- The natural number that decimal digits stand for. -/
def value (digits : List Nat) : Nat :=
  valueInBase 10 digits

/-- The last `places` decimal digits of a number. -/
def fixedDigits : Nat → Nat → List Char
  | 0, _ => []
  | places + 1, n => fixedDigits places (n / 10) ++ [Nat.digitChar (n % 10)]

end Text

end Provenance
