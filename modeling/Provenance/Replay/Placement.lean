import Provenance.Replay.Plan
import Provenance.Replay.Substitutions
import Provenance.Store.Call

/-!
# Laying out new bundles

New bundles are put on the target worksheet the way the old ones are laid out on the host, a
worksheet with an item for the anchor: each created bundle where its old bundle is, under a copy of
its prelude. What the plan names beyond that goes to the end.
-/

namespace Provenance

/-- What was put on the target worksheet. -/
structure PlacementReport where
  /-- The worksheet whose layout was followed. -/
  host : Option WorksheetId
  /-- The new bundles that followed the layout, in their order. -/
  placed : List BundleId
  /-- The new bundles at the end. -/
  appended : List BundleId
  /-- The number of items that were copied as preludes. -/
  preludeItems : Nat
deriving DecidableEq

namespace PlacementReport

/-- Nothing was put anywhere. -/
def ofHost (host : Option WorksheetId) : PlacementReport :=
  ⟨host, [], [], 0⟩

end PlacementReport

namespace Placement

/-- The host among the worksheets with an item for the anchor: the target if it is one of them, and
else the first. -/
def host? (target : WorksheetId) (hosts : List WorksheetSummary) : Option WorksheetId :=
  match hosts.find? fun host => host.id = target with
  | some host => some host.id
  | none => hosts.head?.map WorksheetSummary.id

/-- The created bundle that stands in for the bundle of an item. -/
def fresh? (substitutions : Substitutions) (created : List BundleId) (item : WorksheetItem) :
    Option BundleId := do
  let old ← item.bundleId?
  let new ← substitutions.get? old
  new.filter fun id => created.contains id

/-- The layout that a host gives: each created bundle that stands in for one of its items, in order,
with the prelude directly above that item. -/
def layout (substitutions : Substitutions) (created : List BundleId)
    (prelude : List WorksheetItem) : List WorksheetItem → List (List WorksheetItem × BundleId)
  | [] => []
  | item :: items =>
    if item.isPrelude then layout substitutions created (prelude ++ [item]) items
    else
      let rest := layout substitutions created [] items
      match fresh? substitutions created item with
      | some new => (prelude, new) :: rest
      | none => rest

/-- Puts items at the end of a worksheet, one after another. -/
def putItems (target : WorksheetId) : List WorksheetItem → Dialogue (Except StoreError Unit)
  | [] => return .ok ()
  | item :: items => do
    match ← Dialogue.call (.createWorksheetItem item target) with
    | .error error => return .error error
    | .ok _ => putItems target items

/-- The new bundles of a plan that are not placed yet. -/
def unplaced (plan : Plan) (placed : List BundleId) : List BundleId :=
  plan.newIds.filter fun id => id ∉ placed

/-- What is put on the target for a layout: the preludes if they are wanted, and the bundles. -/
def items (skipPrelude : Bool) (layout : List (List WorksheetItem × BundleId)) :
    List WorksheetItem :=
  layout.flatMap fun placed =>
    (if skipPrelude then [] else placed.1) ++ [.bundle placed.2]

/-- The layout of the host, if there is one. -/
def hostLayout (substitutions : Substitutions) (created : List BundleId) :
    Option WorksheetId → Dialogue (Except StoreError (List (List WorksheetItem × BundleId)))
  | none => return .ok []
  | some host => do
    match ← Dialogue.call (.fetchWorksheet host) with
    | .error error => return .error error
    | .ok worksheet => return .ok (layout substitutions created [] worksheet.items)

/-- The worksheets with an item for the anchor. -/
def hosts (anchor : Option BundleId) : Dialogue (Except StoreError (List WorksheetSummary)) :=
  match anchor with
  | none => return .ok []
  | some anchor => Dialogue.call (.fetchWorksheetsByBundle anchor)

/-- Puts the new bundles of a plan on the target. -/
def place (plan : Plan) (substitutions : Substitutions) (created : List BundleId)
    (target : WorksheetId) (anchor : Option BundleId) (skipPrelude : Bool) :
    Dialogue (Except StoreError PlacementReport) := do
  match ← hosts anchor with
  | .error error => return .error error
  | .ok hosts =>
    let host := host? target hosts
    match ← hostLayout substitutions created host with
    | .error error => return .error error
    | .ok layout =>
      let placed := layout.map Prod.snd
      let appended := unplaced plan placed
      match ← putItems target (items skipPrelude layout ++ appended.map .bundle) with
      | .error error => return .error error
      | .ok () =>
        return .ok {
          host, placed, appended
          preludeItems :=
            if skipPrelude then 0 else (layout.flatMap Prod.fst).length }

end Placement

end Provenance
