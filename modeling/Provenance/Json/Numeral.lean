import Provenance.Json.Basic
import Provenance.Text.Digits
import Provenance.Word

/-!
# Reading JSON numbers

A numeral is a sign, whole digits without a leading zero, and maybe a fraction and an exponent.
`Numeral.scan?` takes one off a text.  `Numeral.number?` gives its value: a numeral without fraction
and exponent is an integer if it fits into 64 bits (unsigned, or signed when there is a minus sign);
every other one is a double, and `-0` is the double with a sign.

The digits of a double are gathered into a significand of at most 64 bits: the first whole digit
that no longer fits ends the whole digits, which from there on only count as powers of ten, and the
first fraction digit that no longer fits ends the fraction.
-/

namespace Provenance

/-- A JSON number as written.  A sign stands before the whole digits and before the exponent. -/
structure Numeral where
  negative : Bool
  whole : List Nat
  fraction : Option (List Nat)
  exponent : Option (Bool × List Nat)
deriving DecidableEq

namespace Numeral

/-- Whole digits: a zero alone, or digits that do not start with one. -/
def whole? (text : List Char) : Option (List Nat × List Char) :=
  match Text.digits text with
  | ([], _) => none
  | (0 :: _ :: _, _) => none
  | found => some found

/-- A fraction, if there is a decimal point; one without digits is refused. -/
def fraction? : List Char → Option (Option (List Nat) × List Char)
  | '.' :: rest => (Text.digits? rest).map fun found => (some found.1, found.2)
  | rest => some (none, rest)

/-- The sign of an exponent. -/
def exponentSign : List Char → Bool × List Char
  | '-' :: rest => (true, rest)
  | '+' :: rest => (false, rest)
  | rest => (false, rest)

/-- An exponent, if there is a letter for one; one without digits is refused. -/
def exponent? : List Char → Option (Option (Bool × List Nat) × List Char)
  | c :: rest =>
    if c = 'e' ∨ c = 'E' then
      let sign := exponentSign rest
      (Text.digits? sign.2).map fun found => (some (sign.1, found.1), found.2)
    else some (none, c :: rest)
  | [] => some (none, [])

/-- Takes a numeral off a text. -/
def scan? (text : List Char) : Option (Numeral × List Char) :=
  let sign : Bool × List Char := match text with
    | '-' :: rest => (true, rest)
    | rest => (false, rest)
  match whole? sign.2 with
  | none => none
  | some (whole, afterWhole) =>
    match fraction? afterWhole with
    | none => none
    | some (fraction, afterFraction) =>
      match exponent? afterFraction with
      | none => none
      | some (exponent, rest) => some (⟨sign.1, whole, fraction, exponent⟩, rest)

/-- The largest significand. -/
def maxSignificand : Nat := mostOfBits 64

/-- The significand gathered from digits onto `n`, and the digits that no longer fit. -/
def gather (n : Nat) : List Nat → Nat × List Nat
  | [] => (n, [])
  | d :: rest => if 10 * n + d ≤ maxSignificand then gather (10 * n + d) rest else (n, d :: rest)

/-- The largest exponent that is told apart from larger ones. -/
def maxExponent : Nat := mostOfBits 31

/-- The magnitude of a numeral as a double, if it is finite. -/
def magnitude? (numeral : Numeral) : Option Nat :=
  let whole := gather 0 numeral.whole
  let fractionDigits := numeral.fraction.getD []
  let gathered := gather whole.1 fractionDigits
  let taken := fractionDigits.length - gathered.2.length
  let place : Int := (whole.2.length : Int) - taken
  match numeral.exponent with
  | none => Double.ofDecimal? gathered.1 place
  | some (negative, digits) =>
    let power := Text.value digits
    if maxExponent < power then
      if gathered.1 = 0 ∨ negative then some 0 else none
    else Double.ofDecimal? gathered.1 (if negative then place - power else place + power)

/-- The value of a numeral, if it is in range. -/
def number? (numeral : Numeral) : Option Number :=
  let asDouble := numeral.magnitude?.map fun units => Number.double ⟨numeral.negative, units⟩
  match numeral.fraction, numeral.exponent with
  | none, none =>
    let n := Text.value numeral.whole
    if numeral.negative then
      if 0 < n ∧ n ≤ mostOfBits 63 + 1 then some (.integer (-n)) else asDouble
    else if n ≤ maxSignificand then some (.integer n) else asDouble
  | _, _ => asDouble

end Numeral

end Provenance
