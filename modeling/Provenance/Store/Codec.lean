import Provenance.Bundle.Codec
import Provenance.Json.Printer
import Provenance.Store.Basic
import Provenance.Worksheet.Codec

/-!
# The contents of a store in JSON

`Contents.load?` reads the text of a stored file and `Contents.save` writes one.
-/

namespace Provenance

namespace Contents

/-- The members of the contents. -/
def memberNames : List String :=
  ["owner_id", "bundles", "worksheets"]

/-- The parts of the contents that are read. -/
def shape : Json.Shape :=
  .record [
    ("owner_id", .any),
    ("bundles", .list Bundle.shape),
    ("worksheets", .list Worksheet.shape)]

/-- The contents as a JSON object. -/
def toJson (contents : Contents) : Json :=
  .object [
    ("owner_id", .ofString? contents.ownerId),
    ("bundles", .array (contents.bundles.map Bundle.toJson)),
    ("worksheets", .array (contents.worksheets.map Worksheet.toJson))]

/-- Reads the contents. -/
def ofJson? (value : Json) : Option Contents := do
  let record ← Record.of? memberNames value
  let ownerId ← record.optional? "owner_id" none (Json.nullable? Json.string?)
  let bundles ← record.optional? "bundles" [] (Json.list? Bundle.ofJson?)
  let worksheets ← record.optional? "worksheets" [] (Json.list? Worksheet.ofJson?)
  return { ownerId, bundles, worksheets }

/-- Reads the text of a stored file. -/
def load? (text : String) : Option Contents :=
  (Json.readShaped? shape text).bind ofJson?

/-- The text of the file that stores the contents. -/
def save (contents : Contents) : String :=
  contents.toJson.pretty

end Contents

end Provenance
