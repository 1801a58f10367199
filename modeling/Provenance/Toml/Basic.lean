/-!
# TOML values

`Toml` is the tree of a TOML document: a table of values.  Floats, dates and times keep the text
they were written with.

The rest of the module has what all readers of TOML share: blanks, comments and line ends.
-/

namespace Provenance

/-- A TOML value. -/
inductive Toml where
  | string (text : String)
  | integer (value : Int)
  | float (literal : String)
  | bool (value : Bool)
  /-- A date, a time of day, or both. -/
  | moment (literal : String)
  | array (items : List Toml)
  | table (members : List (String × Toml))

namespace Toml

/-- The natural number of an integer value that is not negative and not above `most`. -/
def nat? (most : Nat) : Toml → Option Nat
  | integer (.ofNat n) => if n ≤ most then some n else none
  | _ => none

/-- The truth value of a boolean value. -/
def bool? : Toml → Option Bool
  | bool value => some value
  | _ => none

/-! ### Blanks, comments and line ends -/

/-- The characters that may stand between the tokens of a line. -/
def isBlank (c : Char) : Bool :=
  c = ' ' ∨ c = '\t'

/-- Whether a character may stand in a comment or a string: anything but control characters, among
which the tab is allowed. -/
def isPrintable (c : Char) : Bool :=
  c = '\t' ∨ (32 ≤ c.toNat ∧ c.toNat ≠ 127)

/-- Drops blanks. -/
def skipBlanks (text : List Char) : List Char :=
  text.dropWhile isBlank

/-- Drops a comment, if there is one. -/
def skipComment : List Char → List Char
  | '#' :: rest => rest.dropWhile isPrintable
  | text => text

/-- The text after a line break. -/
def afterBreak? : List Char → Option (List Char)
  | '\n' :: rest => some rest
  | '\r' :: '\n' :: rest => some rest
  | _ => none

/-- The text after the end of a line that may still have blanks and a comment. -/
def afterLine? (text : List Char) : Option (List Char) :=
  match skipComment (skipBlanks text) with
  | [] => some []
  | rest => afterBreak? rest

/-- Drops blanks, line breaks and comments; `inComment` says whether a comment has begun. -/
def skipGaps (inComment : Bool) : List Char → Option (List Char)
  | [] => some []
  | '\n' :: rest => skipGaps false rest
  | '\r' :: '\n' :: rest => skipGaps false rest
  | c :: rest =>
    if inComment then if isPrintable c then skipGaps true rest else none
    else if isBlank c then skipGaps false rest
    else if c = '#' then skipGaps true rest
    else some (c :: rest)

end Toml

end Provenance
