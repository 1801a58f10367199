/-!
# Finite binary64 numbers

A finite double is a sign and a natural number of units, one unit being `2 ^ -1074`, the smallest
positive double.  All arithmetic here is exact arithmetic on natural numbers followed by one
rounding, so no machine floating point is involved.

* `roundHalfEven` rounds a quotient of naturals to the nearest natural, ties to the even one.
* `Double.nearest` rounds a quotient of units to the nearest magnitude that has at most 53
  significant bits.
* `Double.ofDecimal?` reads `significand * 10 ^ exponent`, or nothing when the result would be
  infinite.
-/

namespace Provenance

/-- The natural number nearest to `num / den`; of two equally near ones, the even one. -/
def roundHalfEven (num den : Nat) : Nat :=
  let quotient := num / den
  let twice := 2 * (num % den)
  if twice < den ∨ (twice = den ∧ quotient % 2 = 0) then quotient else quotient + 1

/-- The number of binary digits of `n`; zero has none. -/
def bitLength (n : Nat) : Nat :=
  if n = 0 then 0 else n.log2 + 1

/-- A finite binary64 number: its sign, and its magnitude in units of `2 ^ -1074`. -/
structure Double where
  negative : Bool
  units : Nat
deriving DecidableEq

namespace Double

/-- The number of units that make up the number one. -/
def unitsPerOne : Nat := Nat.pow 2 1074

/-- The first magnitude that is too large to be finite. -/
def overflow : Nat := Nat.pow 2 2098

/-- The distance, in units, between neighbouring doubles around the magnitude `units`. -/
def spacing (units : Nat) : Nat :=
  Nat.pow 2 (bitLength units - 53)

/-- The representable magnitude nearest to `num / den` units; ties go to the even significand. -/
def nearest (num den : Nat) : Nat :=
  let step := spacing (num / den)
  roundHalfEven num (den * step) * step

/-- The magnitude nearest to a natural number. -/
def ofNat (n : Nat) : Nat :=
  nearest (n * unitsPerOne) 1

/-- The magnitude nearest to a power of ten. -/
def powerOfTen (k : Nat) : Nat :=
  ofNat (Nat.pow 10 k)

/-- The largest power of ten that is a finite double. -/
def maxPower : Nat := 308

/-- One rounded multiplication by a power of ten. -/
def scaleUp (units k : Nat) : Nat :=
  nearest (units * powerOfTen k) unitsPerOne

/-- One rounded division by a power of ten. -/
def scaleDown (units k : Nat) : Nat :=
  nearest (units * unitsPerOne) (powerOfTen k)

/-- Division by `10 ^ k`, in rounded steps of at most `10 ^ 308` each. -/
def shrink (units k : Nat) : Nat :=
  if units = 0 then 0
  else if maxPower < k then shrink (scaleDown units maxPower) (k - maxPower)
  else scaleDown units k
termination_by k
decreasing_by simp [maxPower] at *; omega

/-- The magnitude of `significand * 10 ^ exponent`, if it is finite.

The significand is rounded to a double first and scaled afterwards, each step with its own
rounding, so the result can differ in the last place from the double nearest to the exact value. -/
def ofDecimal? (significand : Nat) (exponent : Int) : Option Nat :=
  let units := ofNat significand
  if units = 0 then some 0
  else if exponent < 0 then some (shrink units exponent.natAbs)
  else if maxPower < exponent.natAbs then none
  else
    let scaled := scaleUp units exponent.natAbs
    if scaled < overflow then some scaled else none

end Double

end Provenance
