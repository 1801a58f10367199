import Provenance.Replay.Cache
import Provenance.Replay.Replayer

/-!
# Parents first

`Replayer.substitute` says what stands in for an old bundle.  What is mapped already is answered at
once.  Otherwise the graph in the cache is walked depth first, along the path from the bundle that
was asked for up to the one that is looked at: a bundle is resolved when each of its parents is
mapped or is on the path itself, which happens on cycles only.

The walk makes at most two moves for every id, one to enter it and one to leave it, so
`Replayer.reach` bounds its length.
-/

namespace Provenance

namespace Replayer

/-- What a walk does next at the end of its path. -/
inductive Move where
  /-- The bundle is mapped: go back to its child. -/
  | leave
  /-- The bundle is beyond the cache: it stands in for itself. -/
  | keep
  /-- A parent has to be dealt with first. -/
  | enter (parent : BundleId)
  /-- All parents are dealt with. -/
  | resolve (old : Bundle)
deriving DecidableEq

/-- The first parent that is neither mapped nor on a path. -/
def pending? (replayer : Replayer) (path : List BundleId) (old : Bundle) : Option BundleId :=
  old.parents.find? fun parent => ¬ replayer.substitutions.contains parent ∧ parent ∉ path

/-- The next move of a walk; `path` leads from `current` down to where the walk started. -/
def move (replayer : Replayer) (cache : Cache) (current : BundleId) (path : List BundleId) : Move :=
  if replayer.substitutions.contains current then .leave
  else
    match cache.get? current with
    | none => .keep
    | some old =>
      match replayer.pending? (current :: path) old with
      | some parent => .enter parent
      | none => .resolve old

/-- Makes at most `moves` moves along a path, the end of the path first.  The result is the path
that is left, and the state, which stays as it was when something fails. -/
def walk (request : Request) (cache : Cache) (replayer : Replayer) :
    (moves : Nat) → (path : List BundleId) →
      Dialogue (Except ReplayError (List BundleId) × Replayer)
  | _, [] => return (.ok [], replayer)
  | 0, current :: path => return (.ok (current :: path), replayer)
  | moves + 1, current :: path =>
    match replayer.move cache current path with
    | .leave => replayer.walk request cache moves path
    | .keep => (replayer.map current (some current)).walk request cache moves path
    | .enter parent => replayer.walk request cache moves (parent :: current :: path)
    | .resolve old => do
      match ← replayer.resolve request current old with
      | .error error => return (.error error, replayer)
      | .ok next => next.walk request cache moves path

/-- The ids that a walk from an id can come to. -/
def reach (cache : Cache) (id : BundleId) : List BundleId :=
  id :: cache.parents

/-- What stands in for an old bundle, `none` for a placeholder, with the state after finding out. -/
def substitute (request : Request) (cache : Cache) (replayer : Replayer) (id : BundleId) :
    Dialogue (Except ReplayError (Option BundleId) × Replayer) := do
  match replayer.substitutions.get? id with
  | some new => return (.ok new, replayer)
  | none =>
    match ← replayer.walk request cache (2 * (reach cache id).length) [id] with
    | (.error error, replayer) => return (.error error, replayer)
    | (.ok _, replayer) =>
      return (.ok ((replayer.substitutions.get? id).getD (some id)), replayer)

/-- Finds out what stands in for each of some old bundles, one after another. -/
def substituteAll (request : Request) (cache : Cache) (replayer : Replayer) :
    List BundleId → Dialogue (Except ReplayError Unit × Replayer)
  | [] => return (.ok (), replayer)
  | id :: ids => do
    match ← replayer.substitute request cache id with
    | (.error error, replayer) => return (.error error, replayer)
    | (.ok _, replayer) => replayer.substituteAll request cache ids

end Replayer

end Provenance
