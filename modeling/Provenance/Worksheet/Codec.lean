import Provenance.Json.Reader
import Provenance.Json.Record
import Provenance.Worksheet.Basic

/-!
# Worksheets in JSON

An item is an object with a tag, the member `type`, which may stand anywhere among its members; or
an array that starts with the tag.  Nothing inside an item is skipped on reading.
-/

namespace Provenance

namespace WorksheetItem

/-- An item as a JSON object. -/
def toJson : WorksheetItem → Json
  | bundle id => .object [("type", .string "bundle"), ("bundle_id", .string id)]
  | markup value => .object [("type", .string "markup"), ("value", .string value)]
  | directive value => .object [("type", .string "directive"), ("value", .string value)]
  | other value => .object [("type", .string "other"), ("value", .string value)]

/-- Reads an item that has a given tag from its other members. -/
def ofTagged? (tag : String) (members : Json) : Option WorksheetItem :=
  if tag = "bundle" then
    (Record.of? ["bundle_id"] members).bind fun record =>
      (record.required? "bundle_id" Json.string?).map bundle
  else
    (Record.of? ["value"] members).bind fun record =>
      if tag = "markup" then (record.required? "value" Json.string?).map markup
      else if tag = "directive" then (record.required? "value" Json.string?).map directive
      else if tag = "other" then (record.optional? "value" "" Json.string?).map other
      else none

/-- Reads an item. -/
def ofJson? : Json → Option WorksheetItem
  | .object members =>
    match members.filter fun member => member.1 = "type" with
    | [(_, .string tag)] => ofTagged? tag (.object (members.filter fun member => member.1 ≠ "type"))
    | _ => none
  | .array (.string tag :: items) => ofTagged? tag (.array items)
  | _ => none

end WorksheetItem

namespace WorksheetSummary

/-- The members of a summary. -/
def memberNames : List String :=
  ["id", "name", "title"]

/-- The parts of a summary that are read. -/
def shape : Json.Shape :=
  .record (memberNames.map (·, .any))

/-- A summary as a JSON object. -/
def toJson (summary : WorksheetSummary) : Json :=
  .object [
    ("id", .string summary.id),
    ("name", .string summary.name),
    ("title", .ofString? summary.title)]

/-- Reads a summary. -/
def ofJson? (value : Json) : Option WorksheetSummary := do
  let record ← Record.of? memberNames value
  let id ← record.required? "id" Json.string?
  let name ← record.required? "name" Json.string?
  let title ← record.optional? "title" none (Json.nullable? Json.string?)
  return { id, name, title }

end WorksheetSummary

namespace Worksheet

/-- The members of a worksheet. -/
def memberNames : List String :=
  ["id", "name", "title", "items"]

/-- The parts of a worksheet that are read. -/
def shape : Json.Shape :=
  .record (memberNames.map (·, .any))

/-- A worksheet as a JSON object. -/
def toJson (worksheet : Worksheet) : Json :=
  .object [
    ("id", .string worksheet.id),
    ("name", .string worksheet.name),
    ("title", .ofString? worksheet.title),
    ("items", .array (worksheet.items.map WorksheetItem.toJson))]

/-- Reads a worksheet. -/
def ofJson? (value : Json) : Option Worksheet := do
  let record ← Record.of? memberNames value
  let id ← record.required? "id" Json.string?
  let name ← record.required? "name" Json.string?
  let title ← record.optional? "title" none (Json.nullable? Json.string?)
  let items ← record.optional? "items" [] (Json.list? WorksheetItem.ofJson?)
  return { id, name, title, items }

end Worksheet

end Provenance
