import Provenance.Store.Call

/-!
# Equivalent bundles

Bundles are equivalent if they have the same command and, in whatever order, the same dependency
keys.  Of several equivalent bundles the latest one is taken; nothing ranks them.
-/

namespace Provenance

namespace Dialogue

/-- All equivalent bundles, the oldest first. -/
def findEquivalent (command : Option String) (keys : List DependencyKey) :
    Dialogue (Except StoreError (List Bundle)) :=
  call (.searchBundles command keys)

/-- The latest equivalent bundle. -/
def latestEquivalent (command : Option String) (keys : List DependencyKey) :
    Dialogue (Except StoreError (Option Bundle)) := do
  return (← findEquivalent command keys).map List.getLast?

end Dialogue

end Provenance
