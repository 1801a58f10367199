import Provenance.Double.Basic

/-!
# The shortest decimal text of a double

`Double.shortest` finds the fewest decimal digits that are nearer to a magnitude than to any other
double: it walks the decimal grids with one digit, two digits and so on, tests the two grid points
next to the magnitude, and stops at the first grid on which one of them lies in the interval of
reals that round to the magnitude.  Of two such points it takes the nearer one, of two equally near
ones the even one.

`Double.text` writes these digits: positionally when the decimal point falls between five places
left of the digits and sixteen places into them, with a signed exponent otherwise, and in positional
form always with a fraction.
-/

namespace Provenance

namespace Double

/-- Twice the distance from the magnitude to the lower end of the interval that rounds to it: the
gap below a power of two is half the gap above it. -/
def gapBelow (units : Nat) : Nat :=
  let step := spacing units
  if 1 < step ∧ units = Nat.pow 2 (bitLength units - 1) then step / 2 else step

/-- The ends of the rounding interval belong to it exactly when the significand is even. -/
def endsIncluded (units : Nat) : Bool :=
  units / spacing units % 2 = 0

/-- Whether a point at `distance / scale` units from the magnitude is within half a `gap` of it. -/
def withinGap (inclusive : Bool) (distance gap scale : Nat) : Bool :=
  if inclusive then 2 * distance ≤ gap * scale else 2 * distance < gap * scale

/-- The point of the grid of multiples of `10 ^ exponent` that rounds to the magnitude and is
nearest to it, as the multiple. -/
def onGrid? (units : Nat) (exponent : Int) : Option Nat :=
  let scale := if exponent < 0 then Nat.pow 10 exponent.natAbs else 1
  let num := units * scale
  let den := if exponent < 0 then unitsPerOne else unitsPerOne * Nat.pow 10 exponent.natAbs
  let down := num / den
  let below := num % den
  let above := den - below
  let inclusive := endsIncluded units
  let downFits := withinGap inclusive below (gapBelow units) scale
  let upFits := withinGap inclusive above (spacing units) scale
  if downFits ∧ (¬ upFits ∨ below < above ∨ (below = above ∧ down % 2 = 0)) then some down
  else if upFits then some (down + 1)
  else none

/-- The number of decimal digits of `n`; zero has one. -/
def decimalLength (n : Nat) : Nat :=
  (Nat.toDigits 10 n).length

/-- The least `k`, from `k` on, for which `10 ^ k` times the magnitude is at least one, looking at
most `fuel` places further. -/
def leadingPlaces (units : Nat) : Nat → Nat → Nat
  | 0, k => k
  | fuel + 1, k =>
    if unitsPerOne ≤ units * Nat.pow 10 k then k else leadingPlaces units fuel (k + 1)

/-- The exponent of the largest power of ten not above a positive magnitude.  No magnitude is so
small that its first digit is further than 324 places behind the point. -/
def decimalExponent (units : Nat) : Int :=
  if unitsPerOne ≤ units then decimalLength (units / unitsPerOne) - 1
  else -(leadingPlaces units 324 1 : Int)

/-- Digits and exponent of the first grid, from `digits` digits on, that has a point rounding to the
magnitude. -/
def firstGrid (units : Nat) (top : Int) : Nat → Nat → Nat × Int
  | 0, digits => (units, top - digits)
  | fuel + 1, digits =>
    let exponent := top - digits + 1
    match onGrid? units exponent with
    | some point => (point, exponent)
    | none => firstGrid units top fuel (digits + 1)

/-- Moves trailing zeros of the digits into the exponent. -/
def dropZeros : Nat → Nat → Int → Nat × Int
  | 0, digits, exponent => (digits, exponent)
  | fuel + 1, digits, exponent =>
    if digits % 10 = 0 then dropZeros fuel (digits / 10) (exponent + 1) else (digits, exponent)

/-- The fewest decimal digits that read back as the positive magnitude, with their exponent.
Seventeen digits always suffice. -/
def shortest (units : Nat) : Nat × Int :=
  let found := firstGrid units (decimalExponent units) 17 1
  dropZeros 18 found.1 found.2

/-- The text of a positive magnitude. -/
def magnitudeText (units : Nat) : List Char :=
  let found := shortest units
  let digits := Nat.toDigits 10 found.1
  let point : Int := digits.length + found.2
  if 0 ≤ found.2 ∧ point ≤ 16 then
    digits ++ List.replicate found.2.natAbs '0' ++ ['.', '0']
  else if 0 < point ∧ point ≤ 16 then
    digits.take point.natAbs ++ '.' :: digits.drop point.natAbs
  else if -5 < point ∧ point ≤ 0 then
    '0' :: '.' :: List.replicate point.natAbs '0' ++ digits
  else
    let mantissa := match digits with
      | first :: second :: rest => first :: '.' :: second :: rest
      | short => short
    let power := point - 1
    mantissa ++ 'e' :: (if power < 0 then '-' else '+') :: Nat.toDigits 10 power.natAbs

/-- The shortest text that reads back as the double; zero keeps its sign. -/
def text (d : Double) : List Char :=
  (if d.negative then ['-'] else []) ++
    (if d.units = 0 then ['0', '.', '0'] else magnitudeText d.units)

end Double

end Provenance
