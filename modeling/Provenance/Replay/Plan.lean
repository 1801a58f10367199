import Provenance.Bundle.Codec

/-!
# Plans

A plan lists old bundles with the bundles that stand in for them, parents before children.
-/

namespace Provenance

/-- An old bundle and the one that stands in for it. -/
structure PlanEntry where
  old : Bundle
  /-- Without an id when the bundle is only planned. -/
  new : Bundle
deriving DecidableEq

/-- The bundles that a replay gives, parents first. -/
abbrev Plan := List PlanEntry

namespace PlanEntry

/-- The members of an entry. -/
def memberNames : List String :=
  ["old", "new"]

/-- The parts of an entry that are read. -/
def shape : Json.Shape :=
  .record (memberNames.map (·, Bundle.shape))

/-- An entry as a JSON object. -/
def toJson (entry : PlanEntry) : Json :=
  .object [("old", entry.old.toJson), ("new", entry.new.toJson)]

/-- Reads an entry. -/
def ofJson? (value : Json) : Option PlanEntry := do
  let record ← Record.of? memberNames value
  let old ← record.required? "old" Bundle.ofJson?
  let new ← record.required? "new" Bundle.ofJson?
  return { old, new }

end PlanEntry

namespace Plan

/-- The parts of a plan that are read. -/
def shape : Json.Shape :=
  .list PlanEntry.shape

/-- A plan as a JSON array. -/
def toJson (plan : Plan) : Json :=
  .array (plan.map PlanEntry.toJson)

/-- Reads a plan. -/
def ofJson? (value : Json) : Option Plan :=
  value.list? PlanEntry.ofJson?

/-- The ids of the new bundles; placeholders have none. -/
def newIds (plan : Plan) : List BundleId :=
  plan.filterMap fun entry => entry.new.id

/-- The entry of an old bundle. -/
def entryFor? (plan : Plan) (old : BundleId) : Option PlanEntry :=
  plan.find? fun entry => entry.old.id = some old

end Plan

end Provenance
