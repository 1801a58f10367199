/-!
# White space

The characters with the Unicode property White_Space.
-/

namespace Provenance

namespace Text

/-- Whether a character is white space. -/
def isWhiteSpace (c : Char) : Bool :=
  let n := c.toNat
  (9 ≤ n ∧ n ≤ 13) ∨ n = 0x20 ∨ n = 0x85 ∨ n = 0xa0 ∨ n = 0x1680 ∨ (0x2000 ≤ n ∧ n ≤ 0x200a) ∨
    n = 0x2028 ∨ n = 0x2029 ∨ n = 0x202f ∨ n = 0x205f ∨ n = 0x3000

/-- Drops white space. -/
def trimStart (text : List Char) : List Char :=
  text.dropWhile isWhiteSpace

end Text

end Provenance
