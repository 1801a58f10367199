import Provenance.Replay.Ancestors
import Provenance.Replay.Placement
import Provenance.Replay.Traversal

/-!
# Replaying

`Request.replay` is a whole replay: it finds the bundles that the request names, collects the graph,
substitutes parents first, and lays the new bundles out.  What was created before a failure stays in
the store.
-/

namespace Provenance

/-- What a replay gives. -/
structure Replayed where
  plan : Plan
  /-- Missing in a dry run, and where the store itself places new bundles. -/
  placement : Option PlacementReport
deriving DecidableEq

namespace Request

/-- The id of the bundle that a spec stands for. -/
def resolveSpec (spec : String) : Dialogue (Except ReplayError BundleId) := do
  match ← Dialogue.call (.fetchBundles [spec] none) with
  | .error error => return .error (.store error)
  | .ok found =>
    match found.head?.bind Bundle.id with
    | some id => return .ok id
    | none => return .error (.noMatch spec)

/-- The ids of the bundles that specs stand for. -/
def resolveSpecs : List String → Dialogue (Except ReplayError (List BundleId))
  | [] => return .ok []
  | spec :: specs => do
    match ← resolveSpec spec with
    | .error error => return .error error
    | .ok id => return (← resolveSpecs specs).map (id :: ·)

/-- The id of the bundle that a spec stands for, if there is a spec. -/
def resolveOptional : Option String → Dialogue (Except ReplayError (Option BundleId))
  | none => return .ok none
  | some spec => return (← resolveSpec spec).map some

/-- The request with an id in place of everything it names: the output, the old inputs, and the new
ones. -/
def resolved (request : Request) : Dialogue (Except ReplayError Request) := do
  match ← resolveOptional request.oldOutput with
  | .error error => return .error error
  | .ok oldOutput =>
    match ← resolveSpecs request.oldInputs with
    | .error error => return .error error
    | .ok oldInputs =>
      match ← resolveSpecs request.newInputs with
      | .error error => return .error error
      | .ok newInputs => return .ok { request with oldOutput, oldInputs, newInputs }

/-- The bundles to start from: the output alone, or the old inputs and their descendants. -/
def fetchSeeds (request : Request) : Dialogue (Except StoreError (List Bundle)) :=
  match request.oldOutput with
  | some output => Dialogue.call (.fetchBundles [output] none)
  | none => Dialogue.call (.fetchBundles request.oldInputs (some request.depth))

/-- The graph that a request is about, and the ids in it, ancestors first. -/
def collect (request : Request) : Dialogue (Except StoreError (Cache × List BundleId)) := do
  match ← request.fetchSeeds with
  | .error error => return .error error
  | .ok found =>
    match ← (Cache.ofBundles found).collectAncestors (Cache.idsOf found) request.depth with
    | (.error error, _) => return .error error
    | (.ok closure, cache) => return .ok (cache, closure)

/-- The bundles to find counterparts for: the output alone, or the whole graph. -/
def targets (request : Request) (closure : List BundleId) : List BundleId :=
  match request.oldOutput with
  | some output => [output]
  | none => closure

/-- Lays out what a replay made, unless nothing was made or the store placed it. -/
def layOut (request : Request) (replayer : Replayer) :
    Dialogue (Except StoreError (Option PlacementReport)) :=
  if request.dryRun ∨ request.shadow then return .ok none
  else do
    let report ← Placement.place replayer.plan replayer.substitutions replayer.created
      request.worksheet request.anchor? request.skipPrelude
    return report.map some

/-- Replays a request that names ids only. -/
def replayResolved (request : Request) : Dialogue (Except ReplayError Replayed) := do
  match ← request.collect with
  | .error error => return .error (.store error)
  | .ok (cache, closure) =>
    match ← (Replayer.start request).substituteAll request cache (request.targets closure) with
    | (.error error, _) => return .error error
    | (.ok (), replayer) =>
      match ← request.layOut replayer with
      | .error error => return .error (.store error)
      | .ok placement => return .ok ⟨replayer.plan, placement⟩

/-- Replays a request. -/
def replay (request : Request) : Dialogue (Except ReplayError Replayed) :=
  match request.validate with
  | .error error => return .error error
  | .ok () => do
    match ← request.resolved with
    | .error error => return .error error
    | .ok request => request.replayResolved

end Request

end Provenance
