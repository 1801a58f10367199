import Provenance.Toml.Moment
import Provenance.Toml.Numeral
import Provenance.Toml.Quoted
import Provenance.Toml.Table

/-!
# Reading TOML

`Toml.read?` reads a document: it splits the text into lines with a meaning, and adds these to a
table one after another.

Values may be nested in one another up to `maxNesting` deep, and keys may have as many parts.

The functions that take `fuel` use one unit for each step into a value, from item to item or from
line to line; a text never needs more than twice its length.
-/

namespace Provenance

namespace Toml

/-- The most arrays and tables that may be nested in one another, and the most parts of a key. -/
def maxNesting : Nat := 79

/-! ### Keys -/

/-- The characters of a key without quotes. -/
def isBare (c : Char) : Bool :=
  c.isAlphanum ∨ c = '_' ∨ c = '-'

/-- One part of a key. -/
def readPart? : List Char → Option (String × List Char)
  | '"' :: rest => readEscaped .plain [] rest
  | '\'' :: rest => readLiteral [] rest
  | text =>
    match text.takeWhile isBare with
    | [] => none
    | part => some (String.ofList part, text.dropWhile isBare)

/-- The parts of a key, with dots between them. -/
def readParts? : (fuel : Nat) → List Char → Option (List String × List Char)
  | 0, _ => none
  | fuel + 1, text =>
    match readPart? (skipBlanks text) with
    | none => none
    | some (part, afterPart) =>
      match skipBlanks afterPart with
      | '.' :: rest => (readParts? fuel rest).map fun found => (part :: found.1, found.2)
      | rest => some ([part], rest)

/-- A key: its parts but the last, and the last. -/
structure Key where
  path : List String
  name : String

/-- The key that has these parts, if they are not too many. -/
def Key.ofParts? (parts : List String) : Option Key :=
  if maxNesting < parts.length then none
  else parts.getLast?.map fun name => ⟨parts.dropLast, name⟩

/-- Reads a key. -/
def readKey? (text : List Char) : Option (Key × List Char) := do
  let (parts, rest) ← readParts? (text.length + 1) text
  return (← Key.ofParts? parts, rest)

/-! ### Values -/

/-- The part of a text in front of the rest of it. -/
def consumed (text rest : List Char) : String :=
  String.ofList (text.take (text.length - rest.length))

/-- Reads a value other than an array or a table. -/
def readScalar? (text : List Char) : Option (Toml × List Char) :=
  match text with
  | 't' :: 'r' :: 'u' :: 'e' :: rest => some (.bool true, rest)
  | 'f' :: 'a' :: 'l' :: 's' :: 'e' :: rest => some (.bool false, rest)
  | _ =>
    match readString? text with
    | some (content, rest) => some (.string content, rest)
    | none =>
      match afterMoment? text with
      | some rest => some (.moment (consumed text rest), rest)
      | none =>
        match afterFloat? text with
        | some rest => some (.float (consumed text rest), rest)
        | none => (integer? text).map fun found => (.integer found.1, found.2)

mutual

/-- Reads a value in which `room` more arrays and tables may be nested. -/
def readValue? (fuel room : Nat) (text : List Char) : Option (Toml × List Char) :=
  match fuel with
  | 0 => none
  | fuel + 1 =>
    match text with
    | '[' :: rest =>
      match room, skipGaps false rest with
      | 0, _ | _, none => none
      | _ + 1, some (']' :: after) => some (.array [], after)
      | room + 1, some start =>
        (readItems? fuel room start).map fun found => (.array found.1, found.2)
    | '{' :: rest =>
      match room, skipBlanks rest with
      | 0, _ => none
      | _ + 1, '}' :: after => some (.table [], after)
      | room + 1, start =>
        (readMembers? fuel room [] start).map fun found => (found.1.close, found.2)
    | _ => readScalar? text

/-- Reads the items of an array up to the closing bracket; the last one may be followed by a
comma. -/
def readItems? (fuel room : Nat) (text : List Char) : Option (List Toml × List Char) :=
  match fuel with
  | 0 => none
  | fuel + 1 =>
    match readValue? fuel room text with
    | none => none
    | some (item, afterItem) =>
      match skipGaps false afterItem with
      | some (']' :: rest) => some ([item], rest)
      | some (',' :: rest) =>
        match skipGaps false rest with
        | none => none
        | some (']' :: rest) => some ([item], rest)
        | some start => (readItems? fuel room start).map fun found => (item :: found.1, found.2)
      | _ => none

/-- Reads the members of a table in braces up to the closing one, adding them to those found. -/
def readMembers? (fuel room : Nat) (found : Tree) (text : List Char) :
    Option (Tree × List Char) :=
  match fuel with
  | 0 => none
  | fuel + 1 =>
    match readKey? text with
    | some (key, '=' :: afterKey) =>
      match readValue? fuel room (skipBlanks afterKey) with
      | none => none
      | some (value, afterValue) =>
        match found.assign? key.name value key.path with
        | none => none
        | some found =>
          match skipBlanks afterValue with
          | '}' :: rest => some (found, rest)
          | ',' :: rest => readMembers? fuel room found rest
          | _ => none
    | _ => none

end

/-! ### Lines -/

/-- A line with a meaning. -/
inductive Line where
  /-- The header of a table. -/
  | header (key : Key)
  /-- The header of another table in an array. -/
  | element (key : Key)
  /-- A key with its value, which may take more than one line of text. -/
  | member (key : Key) (value : Toml)

/-- Reads a line that starts with something. -/
def readLine? (text : List Char) : Option (Line × List Char) :=
  match text with
  | '[' :: '[' :: rest =>
    match readKey? rest with
    | some (key, ']' :: ']' :: rest) => (afterLine? rest).map (.element key, ·)
    | _ => none
  | '[' :: rest =>
    match readKey? rest with
    | some (key, ']' :: rest) => (afterLine? rest).map (.header key, ·)
    | _ => none
  | _ =>
    match readKey? text with
    | some (key, '=' :: rest) => do
      let (value, rest) ← readValue? (2 * rest.length + 2) maxNesting (skipBlanks rest)
      return (.member key value, ← afterLine? rest)
    | _ => none

/-- Reads the lines of a text, leaving out those without a meaning. -/
def readLines? : (fuel : Nat) → List Char → Option (List Line)
  | 0, _ => none
  | fuel + 1, text =>
    match skipBlanks text with
    | [] => some []
    | c :: rest =>
      if c = '#' ∨ c = '\n' ∨ c = '\r' then
        (afterLine? (c :: rest)).bind (readLines? fuel)
      else do
        let (line, rest) ← readLine? (c :: rest)
        return line :: (← readLines? fuel rest)

/-! ### Documents -/

/-- A document under construction. -/
structure Document where
  /-- All of it. -/
  root : Tree
  /-- The path to the table that the next members belong to. -/
  current : List String

namespace Document

/-- A document without lines. -/
def empty : Document :=
  ⟨[], []⟩

/-- Adds a line. -/
def addLine? (document : Document) : Line → Option Document
  | .header key => (document.root.open? key.path key.name).map (⟨·, key.path ++ [key.name]⟩)
  | .element key =>
    (document.root.openElement? key.path key.name).map (⟨·, key.path ++ [key.name]⟩)
  | .member key value =>
    (document.root.within? (Tree.assign? key.name value key.path) document.current).map
      (⟨·, document.current⟩)

end Document

/-- Drops a byte order mark. -/
def skipMark : List Char → List Char
  | '\uFEFF' :: rest => rest
  | text => text

/-- Reads a document. -/
def read? (text : String) : Option Toml := do
  let lines ← readLines? (text.length + 1) (skipMark text.toList)
  let document ← lines.foldlM Document.addLine? .empty
  return document.root.close

end Toml

end Provenance
