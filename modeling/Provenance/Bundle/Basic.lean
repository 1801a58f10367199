import Provenance.Bundle.Kind
import Provenance.Metadata
import Provenance.Timestamp.Basic

/-!
# Bundles

A bundle is a node of the provenance graph.  Its dependencies are the edges to its parents: each
mounts the contents of a parent under a path of the child.  A bundle that was not stored yet, or is
only planned, has no id.
-/

namespace Provenance

/-- What a bundle is addressed by. -/
abbrev BundleId := String

/-- An edge of the provenance graph, as a child sees it. -/
structure Dependency where
  parentId : BundleId
  /-- The part of the parent that is used; empty for all of it. -/
  parentPath : String
  /-- The bundle that has the dependency, for information only. -/
  childId : BundleId
  /-- Where the child finds the parent. -/
  childPath : String
deriving DecidableEq

/-- What tells one dependency of a bundle from another. -/
structure DependencyKey where
  parentId : BundleId
  childPath : String
deriving DecidableEq

/-- The key of a dependency. -/
def Dependency.key (dependency : Dependency) : DependencyKey :=
  ⟨dependency.parentId, dependency.childPath⟩

/-- Keys are ordered by parent, then by path. -/
def DependencyKey.le (a b : DependencyKey) : Bool :=
  a.parentId < b.parentId ∨ (a.parentId = b.parentId ∧ a.childPath ≤ b.childPath)

/-- The description of a bundle. -/
structure Bundle where
  id : Option BundleId
  kind : BundleKind
  ownerId : Option String
  command : Option String
  dataHash : Option String
  state : BundleState
  /-- When the bundle was frozen, if it is. -/
  frozen : Option Timestamp
  isAnonymous : Bool
  metadata : Metadata
  dependencies : List Dependency
  /-- An explanation of the state, filled in when a bundle is fetched. -/
  stateDetails : Option String
deriving DecidableEq

/-- Why a bundle may not be changed. -/
inductive GuardError where
  /-- It is frozen. -/
  | frozen (id : BundleId) (name : String)
  /-- It is to be frozen before it came to rest. -/
  | notFinal (id : BundleId) (name : String)
deriving DecidableEq

/-- The wording of a refusal. -/
def GuardError.message : GuardError → String
  | .frozen id name => "Cannot mutate frozen bundle " ++ id ++ "(" ++ name ++ ")."
  | .notFinal id name =>
    "Cannot freeze bundle " ++ id ++ "(" ++ name ++ "), bundle is not in a final state."

namespace Bundle

/-- A new bundle of a kind, with a name. -/
def ofName (kind : BundleKind) (name : String) : Bundle where
  id := none
  kind := kind
  ownerId := none
  command := none
  dataHash := none
  state := .created
  frozen := none
  isAnonymous := false
  metadata := Metadata.empty.insert "name" (.ofString name)
  dependencies := []
  stateDetails := none

/-- The name in the metadata; empty when there is none or when it is no string. -/
def name (bundle : Bundle) : String :=
  (bundle.metadata.text? "name").getD ""

/-- The keys of the dependencies. -/
def keys (bundle : Bundle) : List DependencyKey :=
  bundle.dependencies.map Dependency.key

/-- The parents, in the order of the dependencies. -/
def parents (bundle : Bundle) : List BundleId :=
  bundle.dependencies.map Dependency.parentId

/-- A frozen bundle may not be changed. -/
def checkNotFrozen (bundle : Bundle) : Except GuardError Unit :=
  if bundle.frozen.isSome then .error (.frozen (bundle.id.getD "") bundle.name) else .ok ()

/-- Only a bundle in a final state may be frozen. -/
def checkFreezable (bundle : Bundle) : Except GuardError Unit :=
  if bundle.state.isFinal then .ok () else .error (.notFinal (bundle.id.getD "") bundle.name)

/-- An explanation of the current state.  Bundles that are preparing or running say themselves what
they are doing. -/
def describeState (bundle : Bundle) : String :=
  match bundle.state with
  | .preparing | .running => (bundle.metadata.text? "run_status").getD ""
  | state => state.explanation bundle.kind

/-- The bundle as it is answered: with its state explained. -/
def explained (bundle : Bundle) : Bundle :=
  { bundle with stateDetails := some bundle.describeState }

/-- The bundle under an id, which its dependencies name as their child. -/
def withId (bundle : Bundle) (id : BundleId) : Bundle :=
  { bundle with
    id := some id
    dependencies := bundle.dependencies.map fun dependency => { dependency with childId := id } }

end Bundle

end Provenance
