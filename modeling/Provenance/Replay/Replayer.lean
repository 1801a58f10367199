import Provenance.Replay.Counterpart
import Provenance.Replay.Equivalent
import Provenance.Replay.Plan
import Provenance.Replay.Substitutions

/-!
# Making one counterpart

A `Replayer` is the state of a replay: what stands in for each old bundle so far, the plan, and
which old bundles are downstream of a replaced one.

`Replayer.resolve` treats one old bundle whose parents are dealt with.  A bundle that is not
affected stands in for itself.  An affected one is only planned in a dry run; otherwise an
equivalent bundle stands in for it if the request wants that and there is one, and else a new
bundle.

A failure leaves no new state behind, so whatever was recorded before stays.
-/

namespace Provenance

/-- The state of a replay. -/
structure Replayer where
  /-- What stands in for each old bundle. -/
  substitutions : Substitutions
  /-- The old bundles whose children have to be replaced. -/
  downstream : List BundleId
  /-- The ids of the bundles that were created, not taken over. -/
  created : List BundleId
  /-- The old bundles with what was planned, taken over or created for them. -/
  plan : Plan
deriving DecidableEq

namespace Replayer

/-- The replay of a request before anything is resolved: each old input is replaced.  Of several
replacements for one old input the first counts. -/
def start (request : Request) : Replayer where
  substitutions :=
    request.pairs.foldl (fun substitutions pair => substitutions.add pair.1 (some pair.2)) .empty
  downstream := request.pairs.map Prod.fst
  created := []
  plan := []

/-- Records what stands in for an old bundle. -/
def map (replayer : Replayer) (old : BundleId) (new : Option BundleId) : Replayer :=
  { replayer with substitutions := replayer.substitutions.add old new }

/-- The id that stands for a parent in a new description.  A placeholder has none; a parent that is
not mapped is on a cycle with its child and stays. -/
def standIn (replayer : Replayer) (parent : BundleId) : BundleId :=
  match replayer.substitutions.get? parent with
  | some (some new) => new
  | some none => ""
  | none => parent

/-- The dependencies of a new bundle. -/
def standIns (replayer : Replayer) (dependencies : List Dependency) : List Dependency :=
  dependencies.map fun dependency =>
    { dependency with parentId := replayer.standIn dependency.parentId }

/-- Whether an old bundle has to be replaced: a parent was replaced, or it is the output of a
request without inputs. -/
def affects (replayer : Replayer) (request : Request) (oldId : BundleId) (old : Bundle) : Bool :=
  (request.oldInputs = [] ∧ request.isOutput oldId) ∨ old.parents.any (· ∈ replayer.downstream)

/-- Records the bundle that stands in for an affected old one. -/
def record (replayer : Replayer) (oldId : BundleId) (old new : Bundle) : Replayer where
  substitutions := replayer.substitutions.add oldId new.id
  downstream := oldId :: replayer.downstream
  created := replayer.created
  plan := replayer.plan ++ [⟨old, new⟩]

/-- Counts a bundle as created. -/
def countCreated (replayer : Replayer) (new : Bundle) : Replayer :=
  { replayer with created := replayer.created ++ new.id.toList }

/-- The equivalent bundle that may stand in for an old one, if the request wants that. -/
def equivalent (request : Request) (command : Option String) (description : Bundle) :
    Dialogue (Except StoreError (Option Bundle)) :=
  if request.memoize ∧ ¬ request.dryRun then .latestEquivalent command description.keys
  else return .ok none

/-- Creates the bundle that stands in for an old one. -/
def create (request : Request) (oldId : BundleId) (description : Bundle) :
    Dialogue (Except ReplayError Bundle) :=
  if ¬ description.kind.isDerived then return .error (.notDerived oldId)
  else do
    let placement := if request.shadow then CreatePlacement.shadow oldId else .detached
    match ← Dialogue.call (.createBundle description request.worksheet placement) with
    | .error error => return .error (.store error)
    | .ok bundle =>
      if bundle.id.isSome then return .ok bundle
      else return .error (.store (.withoutId oldId))

/-- Deals with an old bundle whose parents are dealt with. -/
def resolve (replayer : Replayer) (request : Request) (oldId : BundleId) (old : Bundle) :
    Dialogue (Except ReplayError Replayer) :=
  if ¬ replayer.affects request oldId old then return .ok (replayer.map oldId (some oldId))
  else do
    let description := old.counterpart oldId (replayer.standIns old.dependencies) request
    match ← equivalent request old.command description with
    | .error error => return .error (.store error)
    | .ok found =>
      if request.dryRun then return .ok (replayer.record oldId old description)
      else
        match found with
        | some existing => return .ok (replayer.record oldId old existing)
        | none =>
          match ← create request oldId description with
          | .error error => return .error error
          | .ok new => return .ok ((replayer.record oldId old new).countCreated new)

end Replayer

end Provenance
