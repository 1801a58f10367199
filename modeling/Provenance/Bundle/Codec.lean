import Provenance.Bundle.Basic
import Provenance.Json.Reader
import Provenance.Json.Record
import Provenance.Timestamp.Text

/-!
# Bundles in JSON

How bundles and their parts are written as JSON and read from it.  Members are written in the order
given here.  Members with a default may be missing; the id and the explanation of the state are left
out when they are absent, while the other optional members are then written as null.

`shape` says which members are read at all, so that anything else in a text is skipped.
-/

namespace Provenance

namespace Timestamp

/-- A point in time as a JSON string. -/
def toJson (t : Timestamp) : Json :=
  .string (String.ofList t.text)

/-- Reads a JSON string as a point in time. -/
def ofJson? (value : Json) : Option Timestamp :=
  value.string?.bind read?

end Timestamp

/-- A kind as a JSON string. -/
def BundleKind.toJson (kind : BundleKind) : Json :=
  .string kind.name

/-- Reads a kind. -/
def BundleKind.ofJson? (value : Json) : Option BundleKind :=
  value.enumWord?.bind ofName?

/-- A state as a JSON string. -/
def BundleState.toJson (state : BundleState) : Json :=
  .string state.name

/-- Reads a state. -/
def BundleState.ofJson? (value : Json) : Option BundleState :=
  value.enumWord?.map ofName

namespace Dependency

/-- The members of a dependency. -/
def memberNames : List String :=
  ["parent_id", "parent_path", "child_id", "child_path"]

/-- The parts of a dependency that are read. -/
def shape : Json.Shape :=
  .record (memberNames.map (·, .any))

/-- A dependency as a JSON object. -/
def toJson (dependency : Dependency) : Json :=
  .object [
    ("parent_id", .string dependency.parentId),
    ("parent_path", .string dependency.parentPath),
    ("child_id", .string dependency.childId),
    ("child_path", .string dependency.childPath)]

/-- Reads a dependency. -/
def ofJson? (value : Json) : Option Dependency := do
  let record ← Record.of? memberNames value
  let parentId ← record.required? "parent_id" Json.string?
  let parentPath ← record.optional? "parent_path" "" Json.string?
  let childId ← record.optional? "child_id" "" Json.string?
  let childPath ← record.required? "child_path" Json.string?
  return { parentId, parentPath, childId, childPath }

end Dependency

namespace DependencyKey

/-- The members of a dependency key. -/
def memberNames : List String :=
  ["parent_id", "child_path"]

/-- The parts of a dependency key that are read. -/
def shape : Json.Shape :=
  .record (memberNames.map (·, .any))

/-- A dependency key as a JSON object. -/
def toJson (key : DependencyKey) : Json :=
  .object [("parent_id", .string key.parentId), ("child_path", .string key.childPath)]

/-- Reads a dependency key. -/
def ofJson? (value : Json) : Option DependencyKey := do
  let record ← Record.of? memberNames value
  let parentId ← record.required? "parent_id" Json.string?
  let childPath ← record.required? "child_path" Json.string?
  return { parentId, childPath }

end DependencyKey

namespace Bundle

/-- The members of a bundle. -/
def memberNames : List String :=
  ["id", "bundle_type", "owner_id", "command", "data_hash", "state", "frozen", "is_anonymous",
    "metadata", "dependencies", "state_details"]

/-- The parts of a bundle that are read. -/
def shape : Json.Shape :=
  .record (memberNames.map fun name =>
    (name, if name = "dependencies" then .list Dependency.shape else .any))

/-- A member that is left out when it is absent. -/
def optionalMember (name : String) : Option String → List (String × Json)
  | some text => [(name, .string text)]
  | none => []

/-- A bundle as a JSON object. -/
def toJson (bundle : Bundle) : Json :=
  .object (optionalMember "id" bundle.id ++ [
    ("bundle_type", bundle.kind.toJson),
    ("owner_id", .ofString? bundle.ownerId),
    ("command", .ofString? bundle.command),
    ("data_hash", .ofString? bundle.dataHash),
    ("state", bundle.state.toJson),
    ("frozen", (bundle.frozen.map Timestamp.toJson).getD .null),
    ("is_anonymous", .bool bundle.isAnonymous),
    ("metadata", bundle.metadata.toJson),
    ("dependencies", .array (bundle.dependencies.map Dependency.toJson))] ++
    optionalMember "state_details" bundle.stateDetails)

/-- Reads a bundle. -/
def ofJson? (value : Json) : Option Bundle := do
  let record ← Record.of? memberNames value
  let id ← record.optional? "id" none (Json.nullable? Json.string?)
  let kind ← record.required? "bundle_type" BundleKind.ofJson?
  let ownerId ← record.optional? "owner_id" none (Json.nullable? Json.string?)
  let command ← record.optional? "command" none (Json.nullable? Json.string?)
  let dataHash ← record.optional? "data_hash" none (Json.nullable? Json.string?)
  let state ← record.optional? "state" .created BundleState.ofJson?
  let frozen ← record.optional? "frozen" none (Json.nullable? Timestamp.ofJson?)
  let isAnonymous ← record.optional? "is_anonymous" false Json.bool?
  let metadata ← record.optional? "metadata" .empty Metadata.ofJson?
  let dependencies ← record.optional? "dependencies" [] (Json.list? Dependency.ofJson?)
  let stateDetails ← record.optional? "state_details" none (Json.nullable? Json.string?)
  return { id, kind, ownerId, command, dataHash, state, frozen, isAnonymous, metadata,
           dependencies, stateDetails }

end Bundle

end Provenance
