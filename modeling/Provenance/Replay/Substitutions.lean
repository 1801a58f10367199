import Provenance.Replay.Register

/-!
# Substitutions

Substitutions say what stands in for old bundles: for each of them a bundle, or a placeholder that
has no id because a dry run allocates none.
-/

namespace Provenance

/-- What stands in for each old id: `none` for a placeholder, else the id of a bundle. -/
abbrev Substitutions := Register (Option BundleId)

end Provenance
