import Provenance.Double.Shortest
import Provenance.Json.Basic

/-!
# Writing JSON

A value is written in one of two styles: compact, without a space between tokens, or indented by two
spaces a level, with a space after each colon and empty containers on one line.  Members are written
in the order they are held.  In strings only the quote, the backslash and the control characters
below the space are escaped.

`Json.write` puts the text of a value in front of the text that follows it.
-/

namespace Provenance

namespace Json

/-- The two ways to lay out a value. -/
inductive Style where
  | compact
  | indented
deriving DecidableEq

/-- Starts a line at a level of nesting; the compact style has one line only. -/
def Style.newline (style : Style) (level : Nat) (rest : List Char) : List Char :=
  match style with
  | .compact => rest
  | .indented => '\n' :: (List.replicate (2 * level) ' ' ++ rest)

/-- What stands between a key and its value. -/
def Style.colon (style : Style) (rest : List Char) : List Char :=
  match style with
  | .compact => ':' :: rest
  | .indented => ':' :: ' ' :: rest

/-- One character of a string, in front of the rest of the text. -/
def writeChar (c : Char) (rest : List Char) : List Char :=
  if c = '"' then '\\' :: '"' :: rest
  else if c = '\\' then '\\' :: '\\' :: rest
  else if c = '\n' then '\\' :: 'n' :: rest
  else if c = '\r' then '\\' :: 'r' :: rest
  else if c = '\t' then '\\' :: 't' :: rest
  else if c = '\x08' then '\\' :: 'b' :: rest
  else if c = '\x0c' then '\\' :: 'f' :: rest
  else if c.toNat < 32 then
    '\\' :: 'u' :: '0' :: '0' ::
      Nat.digitChar (c.toNat / 16) :: Nat.digitChar (c.toNat % 16) :: rest
  else c :: rest

/-- A quoted string, in front of the rest of the text. -/
def writeString (text : String) (rest : List Char) : List Char :=
  '"' :: text.toList.foldr writeChar ('"' :: rest)

/-- The decimal text of an integer. -/
def integerText : Int → List Char
  | .ofNat n => Nat.toDigits 10 n
  | .negSucc n => '-' :: Nat.toDigits 10 (n + 1)

/-- The text of a number. -/
def numberText : Number → List Char
  | .integer value => integerText value
  | .double value => value.text

mutual

/-- The text of a value at a level of nesting, in front of the rest of the text. -/
def write (style : Style) (level : Nat) : Json → List Char → List Char
  | .null, rest => 'n' :: 'u' :: 'l' :: 'l' :: rest
  | .bool true, rest => 't' :: 'r' :: 'u' :: 'e' :: rest
  | .bool false, rest => 'f' :: 'a' :: 'l' :: 's' :: 'e' :: rest
  | .number value, rest => numberText value ++ rest
  | .string text, rest => writeString text rest
  | .array [], rest => '[' :: ']' :: rest
  | .array (item :: items), rest =>
    '[' :: style.newline (level + 1) (write style (level + 1) item
      (writeItems style (level + 1) items (style.newline level (']' :: rest))))
  | .object [], rest => '{' :: '}' :: rest
  | .object ((key, value) :: members), rest =>
    '{' :: style.newline (level + 1) (writeString key (style.colon (write style (level + 1) value
      (writeMembers style (level + 1) members (style.newline level ('}' :: rest))))))

/-- The items of an array after the first one. -/
def writeItems (style : Style) (level : Nat) : List Json → List Char → List Char
  | [], rest => rest
  | item :: items, rest =>
    ',' :: style.newline level (write style level item (writeItems style level items rest))

/-- The members of an object after the first one. -/
def writeMembers (style : Style) (level : Nat) : List (String × Json) → List Char → List Char
  | [], rest => rest
  | (key, value) :: members, rest =>
    ',' :: style.newline level (writeString key (style.colon (write style level value
      (writeMembers style level members rest))))

end

/-- The text of a value on one line. -/
def compact (value : Json) : String :=
  String.ofList (write .compact 0 value [])

/-- The text of a value with one item or member a line. -/
def pretty (value : Json) : String :=
  String.ofList (write .indented 0 value [])

end Json

end Provenance
