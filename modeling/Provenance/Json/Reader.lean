import Provenance.Json.Numeral

/-!
# Reading JSON

The reader is strict: no trailing commas, no comments, no raw control characters in strings, no
unpaired surrogates, and nothing but blanks after the value.  At most `maxNesting` containers may be
nested in one another.

A `Shape` says which members are wanted.  What a record does not know is skipped: it must be well
formed, but its numbers may be out of range, its escapes may name unpaired surrogates, and it may
nest as deeply as it likes.

* `Json.readShaped? shape text` reads a whole text.
* `Json.read? text` reads a whole text in which everything is wanted.

The functions that take `fuel` use one unit for each step into a value or from item to item; a text
never needs more than twice its length.
-/

namespace Provenance

namespace Json

/-- Which parts of a value are wanted. -/
inductive Shape where
  /-- Everything inside the value. -/
  | any
  /-- The items of an array, each of one shape. -/
  | list (item : Shape)
  /-- The members of a record; in an array, they are found by position. -/
  | record (members : List (String × Shape))

/-- The shape of a member, if the record knows it. -/
def Shape.find? (key : String) : List (String × Shape) → Option Shape
  | [] => none
  | (k, shape) :: rest => if k = key then some shape else find? key rest

/-- The shape of a member; inside a value that is wanted whole, every member is wanted whole. -/
def Shape.ofMember? (key : String) : Shape → Option Shape
  | .any | .list _ => some .any
  | .record members => Shape.find? key members

/-- The shape of the item at a position, and what is left for the items after it. -/
def Shape.ofItem : Shape → Shape × Shape
  | .any => (.any, .any)
  | .list item => (item, .list item)
  | .record [] => (.any, .record [])
  | .record ((_, shape) :: rest) => (shape, .record rest)

/-- The most containers that may be nested in one another. -/
def maxNesting : Nat := 127

/-- The characters that may stand between tokens. -/
def isBlank (c : Char) : Bool :=
  c = ' ' ∨ c = '\t' ∨ c = '\n' ∨ c = '\r'

/-- Drops blanks. -/
def skipBlanks (text : List Char) : List Char :=
  text.dropWhile isBlank

/-- The number that four hexadecimal digits stand for. -/
def hexUnit? (a b c d : Char) : Option Nat :=
  match Text.hexDigit? a, Text.hexDigit? b, Text.hexDigit? c, Text.hexDigit? d with
  | some a, some b, some c, some d => some (((a * 16 + b) * 16 + c) * 16 + d)
  | _, _, _, _ => none

/-- The character that a one-letter escape stands for. -/
def escaped? (c : Char) : Option Char :=
  if c = '"' then some '"'
  else if c = '\\' then some '\\'
  else if c = '/' then some '/'
  else if c = 'b' then some '\x08'
  else if c = 'f' then some '\x0c'
  else if c = 'n' then some '\n'
  else if c = 'r' then some '\r'
  else if c = 't' then some '\t'
  else none

/-- The character that two UTF-16 surrogates stand for. -/
def surrogatePair? (high low : Nat) : Option Char :=
  if 0xd800 ≤ high ∧ high < 0xdc00 ∧ 0xdc00 ≤ low ∧ low < 0xe000 then
    some (Char.ofNat (0x10000 + (high - 0xd800) * 0x400 + (low - 0xdc00)))
  else none

/-- Whether a UTF-16 unit is half of a pair. -/
def isSurrogate (unit : Nat) : Bool :=
  0xd800 ≤ unit ∧ unit < 0xe000

/-- Reads the characters of a string up to its closing quote; `found` holds those read so far, the
last one first. -/
def readChars (found : List Char) : List Char → Option (String × List Char)
  | [] => none
  | '"' :: rest => some (String.ofList found.reverse, rest)
  | '\\' :: 'u' :: a :: b :: c :: d :: '\\' :: 'u' :: e :: f :: g :: h :: rest =>
    match hexUnit? a b c d with
    | none => none
    | some unit =>
      if isSurrogate unit then
        match (hexUnit? e f g h).bind (surrogatePair? unit) with
        | some char => readChars (char :: found) rest
        | none => none
      else readChars (Char.ofNat unit :: found) ('\\' :: 'u' :: e :: f :: g :: h :: rest)
  | '\\' :: 'u' :: a :: b :: c :: d :: rest =>
    match hexUnit? a b c d with
    | none => none
    | some unit => if isSurrogate unit then none else readChars (Char.ofNat unit :: found) rest
  | '\\' :: c :: rest =>
    match escaped? c with
    | some char => readChars (char :: found) rest
    | none => none
  | c :: rest => if c.toNat < 32 then none else readChars (c :: found) rest

/-- Reads a string, quotes included. -/
def readString? : List Char → Option (String × List Char)
  | '"' :: rest => readChars [] rest
  | _ => none

/-- Skips the characters of a string up to its closing quote. -/
def skipChars : List Char → Option (List Char)
  | [] => none
  | '"' :: rest => some rest
  | '\\' :: 'u' :: a :: b :: c :: d :: rest =>
    match hexUnit? a b c d with
    | some _ => skipChars rest
    | none => none
  | '\\' :: c :: rest =>
    match escaped? c with
    | some _ => skipChars rest
    | none => none
  | c :: rest => if c.toNat < 32 then none else skipChars rest

/-- Skips a string, quotes included. -/
def skipString? : List Char → Option (List Char)
  | '"' :: rest => skipChars rest
  | _ => none

/-- The words that stand for a value. -/
def word? : List Char → Option (Json × List Char)
  | 'n' :: 'u' :: 'l' :: 'l' :: rest => some (.null, rest)
  | 't' :: 'r' :: 'u' :: 'e' :: rest => some (.bool true, rest)
  | 'f' :: 'a' :: 'l' :: 's' :: 'e' :: rest => some (.bool false, rest)
  | _ => none

/-- Skips the colon after a key. -/
def colon? (text : List Char) : Option (List Char) :=
  match skipBlanks text with
  | ':' :: rest => some rest
  | _ => none

mutual

/-- Skips a value of any size and depth. -/
def skipValue (fuel : Nat) (text : List Char) : Option (List Char) :=
  match fuel with
  | 0 => none
  | fuel + 1 =>
    match skipBlanks text with
    | '"' :: rest => skipChars rest
    | '[' :: rest =>
      match skipBlanks rest with
      | ']' :: after => some after
      | _ => skipItems fuel rest
    | '{' :: rest =>
      match skipBlanks rest with
      | '}' :: after => some after
      | _ => skipMembers fuel rest
    | start =>
      match word? start with
      | some (_, rest) => some rest
      | none => (Numeral.scan? start).map (·.2)

/-- Skips items up to the closing bracket. -/
def skipItems (fuel : Nat) (text : List Char) : Option (List Char) :=
  match fuel with
  | 0 => none
  | fuel + 1 =>
    match skipValue fuel text with
    | none => none
    | some afterValue =>
      match skipBlanks afterValue with
      | ',' :: rest => skipItems fuel rest
      | ']' :: rest => some rest
      | _ => none

/-- Skips members up to the closing brace. -/
def skipMembers (fuel : Nat) (text : List Char) : Option (List Char) :=
  match fuel with
  | 0 => none
  | fuel + 1 =>
    match (skipString? (skipBlanks text)).bind colon? with
    | none => none
    | some afterColon =>
      match skipValue fuel afterColon with
      | none => none
      | some afterValue =>
        match skipBlanks afterValue with
        | ',' :: rest => skipMembers fuel rest
        | '}' :: rest => some rest
        | _ => none

end

mutual

/-- Reads a value that may nest `room` more containers. -/
def readValue (fuel room : Nat) (shape : Shape) (text : List Char) : Option (Json × List Char) :=
  match fuel with
  | 0 => none
  | fuel + 1 =>
    match skipBlanks text with
    | '"' :: rest => (readChars [] rest).map fun found => (.string found.1, found.2)
    | '[' :: rest =>
      match room with
      | 0 => none
      | room + 1 =>
        match skipBlanks rest with
        | ']' :: after => some (.array [], after)
        | _ => (readItems fuel room shape rest).map fun found => (.array found.1, found.2)
    | '{' :: rest =>
      match room with
      | 0 => none
      | room + 1 =>
        match skipBlanks rest with
        | '}' :: after => some (.object [], after)
        | _ => (readMembers fuel room shape rest).map fun found => (.object found.1, found.2)
    | start =>
      match word? start with
      | some found => some found
      | none =>
        match Numeral.scan? start with
        | none => none
        | some (numeral, rest) => numeral.number?.map fun number => (.number number, rest)

/-- Reads items up to the closing bracket. -/
def readItems (fuel room : Nat) (shape : Shape) (text : List Char) :
    Option (List Json × List Char) :=
  match fuel with
  | 0 => none
  | fuel + 1 =>
    match readValue fuel room shape.ofItem.1 text with
    | none => none
    | some (item, afterValue) =>
      match skipBlanks afterValue with
      | ',' :: rest =>
        (readItems fuel room shape.ofItem.2 rest).map fun found => (item :: found.1, found.2)
      | ']' :: rest => some ([item], rest)
      | _ => none

/-- Reads members up to the closing brace, leaving out those the shape does not know. -/
def readMembers (fuel room : Nat) (shape : Shape) (text : List Char) :
    Option (List (String × Json) × List Char) :=
  match fuel with
  | 0 => none
  | fuel + 1 =>
    match readString? (skipBlanks text) with
    | none => none
    | some (key, afterKey) =>
      match colon? afterKey with
      | none => none
      | some afterColon =>
        let member : Option (List (String × Json) × List Char) :=
          match shape.ofMember? key with
          | some wanted =>
            (readValue fuel room wanted afterColon).map fun found => ([(key, found.1)], found.2)
          | none => (skipValue fuel afterColon).map fun rest => ([], rest)
        match member with
        | none => none
        | some (kept, afterValue) =>
          match skipBlanks afterValue with
          | ',' :: rest =>
            (readMembers fuel room shape rest).map fun found => (kept ++ found.1, found.2)
          | '}' :: rest => some (kept, rest)
          | _ => none

end

/-- Reads a whole text of which the parts in `shape` are wanted. -/
def readShaped? (shape : Shape) (text : String) : Option Json :=
  let chars := text.toList
  match readValue (2 * chars.length + 2) maxNesting shape chars with
  | some (value, rest) => if skipBlanks rest = [] then some value else none
  | none => none

/-- Reads a whole text. -/
def read? (text : String) : Option Json :=
  readShaped? .any text

end Json

end Provenance
