/-!
# Numbers of fixed width

Some numbers have to fit into a given number of bits.
-/

namespace Provenance

/-- The greatest natural number of so many bits. -/
def mostOfBits (bits : Nat) : Nat :=
  Nat.pow 2 bits - 1

end Provenance
