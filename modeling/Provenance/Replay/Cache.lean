import Provenance.Replay.Register
import Provenance.Store.Call

/-!
# Bundles fetched so far

A cache holds the bundles that were fetched for one replay, each under an id.
-/

namespace Provenance

/-- The bundles fetched so far, each under an id. -/
abbrev Cache := Register Bundle

namespace Cache

/-- Keeps those bundles that have an id. -/
def extend (cache : Cache) (bundles : List Bundle) : Cache :=
  bundles.foldl
    (fun cache bundle =>
      match bundle.id with
      | some id => cache.add id bundle
      | none => cache)
    cache

/-- The cache of those bundles that have an id; of several with one id it has the first. -/
def ofBundles (bundles : List Bundle) : Cache :=
  extend .empty bundles

/-- The ids of some bundles, each once, in the order in which they first occur. -/
def idsOf (bundles : List Bundle) : List BundleId :=
  (bundles.filterMap Bundle.id).eraseDups

/-- All parents that the bundles in the cache name. -/
def parents (cache : Cache) : List BundleId :=
  cache.entries.flatMap fun entry => entry.2.parents

/-- The bundle under an id, which is fetched if there is none. -/
def ensure (cache : Cache) (id : BundleId) : Dialogue (Except StoreError (Bundle × Cache)) :=
  match cache.get? id with
  | some bundle => return .ok (bundle, cache)
  | none => do
    match ← Dialogue.call (.fetchBundle id) with
    | .ok bundle => return .ok (bundle, cache.add id bundle)
    | .error error => return .error error

end Cache

end Provenance
