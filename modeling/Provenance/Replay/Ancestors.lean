import Provenance.Replay.Cache

/-!
# Collecting ancestors

Starting from some ids, a round fetches the bundles of the present frontier and takes the parents
that are not cached yet as the next frontier.  The result lists the frontiers, the last one first,
and the ids that were given at the end; the last frontier is reported but not fetched.

An empty frontier stays empty, so a walk may be asked to go arbitrarily far up.
-/

namespace Provenance

/-- What one round leaves behind. -/
structure AncestorRound where
  /-- The parents found, as often as they were found. -/
  found : List BundleId
  /-- The ids whose parents were looked at. -/
  visited : List BundleId

namespace Cache

/-- Looks at the parents of the ids of a frontier, one after another. -/
def round (found : List BundleId) (visited : List BundleId) (cache : Cache) :
    List BundleId → Dialogue (Except StoreError AncestorRound × Cache)
  | [] => return (.ok ⟨found, visited⟩, cache)
  | id :: frontier =>
    if id ∈ visited then cache.round found visited frontier
    else do
      match ← cache.ensure id with
      | .error error => return (.error error, cache)
      | .ok (bundle, cache) =>
        let unknown := bundle.parents.filter fun parent => ¬ cache.contains parent
        cache.round (found ++ unknown) (id :: visited) frontier

/-- Makes at most `depth` rounds from a frontier, putting what they find in front of `collected`. -/
def rounds (collected visited : List BundleId) (cache : Cache) :
    (depth : Nat) → List BundleId → Dialogue (Except StoreError (List BundleId) × Cache)
  | 0, _ => return (.ok collected, cache)
  | _, [] => return (.ok collected, cache)
  | depth + 1, frontier => do
    match ← cache.round [] visited frontier with
    | (.error error, cache) => return (.error error, cache)
    | (.ok round, cache) =>
      cache.rounds (round.found ++ collected) round.visited depth round.found

/-- The seeds and their ancestors up to `depth` levels, the oldest first, with the cache that the
walk leaves, whether it succeeds or not. -/
def collectAncestors (cache : Cache) (seeds : List BundleId) (depth : Nat) :
    Dialogue (Except StoreError (List BundleId) × Cache) :=
  cache.rounds seeds [] depth seeds

end Cache

end Provenance
