import Provenance.Text.Digits
import Provenance.Toml.Basic

/-!
# TOML strings

There are four kinds of strings.  Double quotes enclose a text with escapes, single quotes a text as
it is; three quotes of a kind enclose a text of several lines.  In such a text one or two quotes may
stand anywhere, also right in front of the closing ones, and a line break right after the opening
quotes does not count.  Line breaks are line feeds in the result.

Each reader starts behind the opening quotes; `found` holds the characters read so far, the last one
first.
-/

namespace Provenance

namespace Toml

/-- What a reader of escaped text is in the middle of. -/
inductive EscapeState where
  /-- Nothing. -/
  | plain
  /-- Blanks and line breaks that do not count. -/
  | folding
  /-- A character code, with this many digits to come after the next one. -/
  | code (more soFar : Nat)
deriving DecidableEq

/-- The character that a one-letter escape stands for. -/
def escaped? (c : Char) : Option Char :=
  if c = 'b' then some '\x08'
  else if c = 't' then some '\t'
  else if c = 'n' then some '\n'
  else if c = 'f' then some '\x0c'
  else if c = 'r' then some '\r'
  else if c = '"' then some '"'
  else if c = '\\' then some '\\'
  else none

/-- What follows a backslash: a character, or something longer. -/
def escape? (c : Char) : Option (Option Char × EscapeState) :=
  if c = 'u' then some (none, .code 3 0)
  else if c = 'U' then some (none, .code 7 0)
  else (escaped? c).map fun char => (some char, .plain)

/-- The character with a code. -/
def ofCode? (code : Nat) : Option Char :=
  if code.isValidChar then some (Char.ofNat code) else none

/-- Goes on with a character code at a digit. -/
def codeDigit? (more soFar : Nat) (c : Char) : Option (Option Char × EscapeState) :=
  match Text.hexDigit? c, more with
  | none, _ => none
  | some digit, 0 => (ofCode? (16 * soFar + digit)).map fun char => (some char, .plain)
  | some digit, more + 1 => some (none, .code more (16 * soFar + digit))

/-- Reads escaped text of one line. -/
def readEscaped (state : EscapeState) (found : List Char) :
    List Char → Option (String × List Char)
  | [] => none
  | c :: rest =>
    match state with
    | .code more soFar =>
      match codeDigit? more soFar c with
      | none => none
      | some (char, state) => readEscaped state (char.toList ++ found) rest
    | .plain | .folding =>
      if c = '"' then some (String.ofList found.reverse, rest)
      else if c = '\\' then
        match rest with
        | [] => none
        | c :: rest =>
          match escape? c with
          | none => none
          | some (char, state) => readEscaped state (char.toList ++ found) rest
      else if isPrintable c then readEscaped .plain (c :: found) rest
      else none

/-- Whether a line break follows, perhaps after blanks. -/
def breaksLine (text : List Char) : Bool :=
  (afterBreak? (skipBlanks text)).isSome

/-- Reads escaped text of several lines.  A backslash at the end of a line takes away the line break
with all blanks and line breaks after it. -/
def readEscapedLines (state : EscapeState) (found : List Char) :
    List Char → Option (String × List Char)
  | [] => none
  | c :: rest =>
    match state with
    | .code more soFar =>
      match codeDigit? more soFar c with
      | none => none
      | some (char, state) => readEscapedLines state (char.toList ++ found) rest
    | .plain | .folding =>
      let broken := if state = .folding then found else '\n' :: found
      match c, rest with
      | '"', '"' :: '"' :: '"' :: '"' :: rest =>
        some (String.ofList ('"' :: '"' :: found).reverse, rest)
      | '"', '"' :: '"' :: '"' :: rest => some (String.ofList ('"' :: found).reverse, rest)
      | '"', '"' :: '"' :: rest => some (String.ofList found.reverse, rest)
      | '\\', next :: rest =>
        if breaksLine (next :: rest) then readEscapedLines .folding found (next :: rest)
        else
          match escape? next with
          | none => none
          | some (char, state) => readEscapedLines state (char.toList ++ found) rest
      | '\n', rest => readEscapedLines state broken rest
      | '\r', '\n' :: rest => readEscapedLines state broken rest
      | c, rest =>
        if state = .folding ∧ isBlank c then readEscapedLines .folding found rest
        else if isPrintable c ∧ c ≠ '\\' then readEscapedLines .plain (c :: found) rest
        else none

/-- Reads text of one line as it is. -/
def readLiteral (found : List Char) : List Char → Option (String × List Char)
  | [] => none
  | c :: rest =>
    if c = '\'' then some (String.ofList found.reverse, rest)
    else if isPrintable c then readLiteral (c :: found) rest
    else none

/-- Reads text of several lines as it is. -/
def readLiteralLines (found : List Char) : List Char → Option (String × List Char)
  | [] => none
  | '\'' :: '\'' :: '\'' :: '\'' :: '\'' :: rest =>
    some (String.ofList ('\'' :: '\'' :: found).reverse, rest)
  | '\'' :: '\'' :: '\'' :: '\'' :: rest => some (String.ofList ('\'' :: found).reverse, rest)
  | '\'' :: '\'' :: '\'' :: rest => some (String.ofList found.reverse, rest)
  | '\n' :: rest => readLiteralLines ('\n' :: found) rest
  | '\r' :: '\n' :: rest => readLiteralLines ('\n' :: found) rest
  | c :: rest => if isPrintable c then readLiteralLines (c :: found) rest else none

/-- Drops a line break, if there is one. -/
def skipBreak (text : List Char) : List Char :=
  (afterBreak? text).getD text

/-- Reads a string of any kind. -/
def readString? : List Char → Option (String × List Char)
  | '"' :: '"' :: '"' :: rest => readEscapedLines .plain [] (skipBreak rest)
  | '"' :: rest => readEscaped .plain [] rest
  | '\'' :: '\'' :: '\'' :: rest => readLiteralLines [] (skipBreak rest)
  | '\'' :: rest => readLiteral [] rest
  | _ => none

end Toml

end Provenance
