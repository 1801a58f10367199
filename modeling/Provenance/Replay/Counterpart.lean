import Provenance.Replay.Request

/-!
# The description of a counterpart

The bundle that stands in for an old one is created from `Bundle.counterpart`: the old description
without its identity, with other dependencies, and with changed metadata.  In this order, the
output name is given, the image that a run was made with is asked for again, and then for each
declared key a computed value is dropped and a requested one put in.
-/

namespace Provenance

namespace Request

/-- The name of the bundle that stands in for an old one, if the request gives the output a name. -/
def nameFor? (request : Request) (old : BundleId) (oldName : String) : Option String :=
  request.outputName?.map fun name =>
    if request.isOutput old then name else name ++ "-" ++ oldName

/-- Gives the metadata the name that is asked for. -/
def rename (request : Request) (old : BundleId) (oldName : String) (metadata : Metadata) :
    Metadata :=
  match request.nameFor? old oldName with
  | some name => metadata.insert "name" (.ofString name)
  | none => metadata

/-- Treats one declared key: a computed value goes, a requested value comes. -/
def overrideField (request : Request) (metadata : Metadata) (field : MetadataField) : Metadata :=
  let kept := if field.generated then metadata.erase field.key else metadata
  match request.overrides.get? field.key with
  | some value => kept.insert field.key value
  | none => kept

end Request

/-- Asks for the image that a run was made with. -/
def Metadata.pinImage (kind : BundleKind) (metadata : Metadata) : Metadata :=
  match (if kind = .run then metadata.text? "docker_image" else none) with
  | some image =>
    if image = "" then metadata else metadata.insert "request_docker_image" (.ofString image)
  | none => metadata

/-- What the bundle that stands in for an old one is created from. -/
def Bundle.counterpart (oldId : BundleId) (old : Bundle) (dependencies : List Dependency)
    (request : Request) : Bundle :=
  let prepared := (request.rename oldId old.name old.metadata).pinImage old.kind
  { old with
    id := none
    stateDetails := none
    metadata := old.kind.fields.foldl request.overrideField prepared
    dependencies := dependencies }

end Provenance
