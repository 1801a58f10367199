import Provenance.Text.Digits
import Provenance.Toml.Basic
import Provenance.Word

/-!
# TOML numbers

Integers have 64 bits and may be written in base ten, or after a mark in base sixteen, eight or two.
A float that is above all doubles is refused.  Single underscores may stand between digits.
-/

namespace Provenance

namespace Toml

/-- The digits at the start of a text, each with at most one underscore in front. -/
def moreDigits (digit? : Char → Option Nat) : List Char → List Nat × List Char
  | [] => ([], [])
  | c :: rest =>
    match digit? c with
    | some digit =>
      let more := moreDigits digit? rest
      (digit :: more.1, more.2)
    | none =>
      match c, rest with
      | '_', d :: after =>
        match digit? d with
        | some digit =>
          let more := moreDigits digit? after
          (digit :: more.1, more.2)
        | none => ([], c :: rest)
      | _, _ => ([], c :: rest)

/-- At least one digit, the first one without an underscore. -/
def digitRun? (digit? : Char → Option Nat) : List Char → Option (List Nat × List Char)
  | [] => none
  | c :: rest => (digit? c).map fun digit =>
    let more := moreDigits digit? rest
    (digit :: more.1, more.2)

/-- A digit that is less than the base. -/
def digitBelow? (base : Nat) (c : Char) : Option Nat :=
  (Text.hexDigit? c).filter (· < base)

/-- A sign, if there is one, and whether it is a minus. -/
def skipSign : List Char → Bool × List Char
  | '-' :: rest => (true, rest)
  | '+' :: rest => (false, rest)
  | text => (false, text)

/-- The digits before a decimal point; only zero itself starts with a zero. -/
def wholeDigits? : List Char → Option (List Nat × List Char)
  | '0' :: rest => some ([0], rest)
  | text => digitRun? Text.digit? text

/-! ### Integers -/

/-- The value of digits in a base, if it fits. -/
def ofDigits? (base : Nat) (digits : List Nat) : Option Int :=
  let n := Text.valueInBase base digits
  if n ≤ mostOfBits 63 then some n else none

/-- An integer in base ten. -/
def decimal? (text : List Char) : Option (Int × List Char) :=
  let sign := skipSign text
  match wholeDigits? sign.2 with
  | none => none
  | some (digits, rest) =>
    let n := Text.value digits
    if sign.1 then if n ≤ mostOfBits 63 + 1 then some (-(n : Int), rest) else none
    else (ofDigits? 10 digits).map (·, rest)

/-- An integer in a base, behind its mark. -/
def integerInBase? (base : Nat) (text : List Char) : Option (Int × List Char) := do
  let (digits, rest) ← digitRun? (digitBelow? base) text
  return (← ofDigits? base digits, rest)

/-- An integer. -/
def integer? : List Char → Option (Int × List Char)
  | '0' :: 'x' :: rest => integerInBase? 16 rest
  | '0' :: 'o' :: rest => integerInBase? 8 rest
  | '0' :: 'b' :: rest => integerInBase? 2 rest
  | text => decimal? text

/-! ### Floats -/

/-- The least number that no double is near enough to. -/
def leastInfinite : Nat := Nat.pow 2 1024 - Nat.pow 2 970

/-- Whether `significand * 10 ^ exponent` is above all doubles. -/
def isInfinite (significand : Nat) (exponent : Int) : Bool :=
  match exponent with
  | .ofNat e => if 400 ≤ e then 0 < significand else leastInfinite ≤ significand * Nat.pow 10 e
  | .negSucc e =>
    if significand.log2 < e then false else leastInfinite * Nat.pow 10 (e + 1) ≤ significand

/-- The digits behind a decimal point, if there is one. -/
def fraction? : List Char → Option (List Nat × List Char)
  | '.' :: rest => digitRun? Text.digit? rest
  | text => some ([], text)

/-- An exponent, if there is one. -/
def exponent? : List Char → Option (Int × List Char)
  | [] => some (0, [])
  | c :: rest =>
    if c = 'e' ∨ c = 'E' then
      let sign := skipSign rest
      (digitRun? Text.digit? sign.2).map fun found =>
        let n : Int := Text.value found.1
        (if sign.1 then -n else n, found.2)
    else some (0, c :: rest)

/-- The text after a float that is written as a number; it has a fraction or an exponent. -/
def afterNumber? (text : List Char) : Option (List Char) := do
  let (negative, start) := skipSign text
  let (whole, afterWhole) ← wholeDigits? start
  let (fraction, afterFraction) ← fraction? afterWhole
  let (exponent, rest) ← exponent? afterFraction
  if rest = afterWhole then none
  else if negative then return rest
  else if isInfinite (Text.value (whole ++ fraction)) (exponent - fraction.length) then none
  else return rest

/-- The text after a float that is written as a word. -/
def afterWord? (text : List Char) : Option (List Char) :=
  match (skipSign text).2 with
  | 'i' :: 'n' :: 'f' :: rest => some rest
  | 'n' :: 'a' :: 'n' :: rest => some rest
  | _ => none

/-- The text after a float. -/
def afterFloat? (text : List Char) : Option (List Char) :=
  (afterNumber? text).or (afterWord? text)

end Toml

end Provenance
