import Provenance.Proofs.Affected
import Provenance.Proofs.Weaving

/-!
# New inputs apart from old ones

What a replay creates stands in for bundles below the old inputs, and is itself below new ones.  So
it can come to lie below an old input only by way of a new input that does, or of a bundle that an old
input is made from.  `Request.Apart` says of a request and a store that neither is near.

* `Far.fetchBundles_eq`: what is fetched does not change when bundles are stored that are not near.
* `Account.depth_lt`: how far what stands in for replaced bundles is below the old inputs.
-/

namespace Provenance

open Relation

namespace Contents

variable {contents earlier : Contents} {tops generation seen : List BundleId}
  {bundles extra : List Bundle} {depth distance : Nat}

/-! ### What is fetched when bundles were added -/

/-- A bundle that does not have to be looked at: it has no id, or no parent in a generation. -/
def Passed (generation : List BundleId) (bundle : Bundle) : Prop :=
  bundle.id = none ∨ ∀ parent ∈ bundle.parents, parent ∉ generation

theorem children_of_passed (h : ∀ bundle ∈ extra, Passed generation bundle) (seen : List BundleId) :
    children generation seen extra = [] := by
  induction extra with
  | nil => rfl
  | cons bundle extra ih =>
      have hrest := ih fun other ho => h other (List.mem_cons_of_mem _ ho)
      rw [children]
      split
      · exact hrest
      · rename_i id hid
        have hnone : ¬ bundle.parents.any (· ∈ generation) = true := by
          rcases h bundle List.mem_cons_self with hn | hn
          · rw [hid] at hn
            cases hn
          · simpa using hn
        rw [if_pos (.inr hnone), hrest]

theorem children_append (h : ∀ bundle ∈ extra, Passed generation bundle) (seen : List BundleId) :
    children generation seen (bundles ++ extra) = children generation seen bundles := by
  induction bundles generalizing seen with
  | nil => exact children_of_passed h seen
  | cons bundle bundles ih =>
      rw [List.cons_append, children, children]
      split
      · exact ih seen
      · split
        · exact ih seen
        · rw [ih]

theorem exists_of_mem_children {bundle : Bundle} (h : bundle ∈ children generation seen bundles) :
    bundle ∈ bundles ∧ ∃ parent ∈ bundle.parents, parent ∈ generation := by
  induction bundles generalizing seen with
  | nil => cases h
  | cons first bundles ih =>
      rw [children] at h
      split at h
      · exact (ih h).imp_left (List.mem_cons_of_mem _)
      · split at h
        · exact (ih h).imp_left (List.mem_cons_of_mem _)
        · rename_i hskip
          rcases List.mem_cons.mp h with rfl | h
          · refine ⟨List.mem_cons_self, ?_⟩
            have hany : bundle.parents.any (· ∈ generation) = true := by
              by_contra hnone
              exact hskip (.inr hnone)
            simpa using hany
          · exact (ih h).imp_left (List.mem_cons_of_mem _)

/-- No bundle stored since is at most so many edges below one of some bundles. -/
def Far (contents earlier : Contents) (tops : List BundleId) (depth : Nat) : Prop :=
  ∀ bundle ∈ contents.since earlier, ∀ id, bundle.id = some id →
    ∀ level ≤ depth, ¬ contents.Level tops level id

variable {depth distance : Nat}

theorem Far.passed (h : contents.Far earlier tops depth) (hlt : distance < depth)
    (hp : earlier.bundles <+: contents.bundles)
    (hg : ∀ id ∈ generation, ∃ top ∈ tops, Climb contents.Edge distance id top) :
    ∀ bundle ∈ contents.since earlier, Passed generation bundle := by
  intro bundle hb
  cases hid : bundle.id with
  | none => exact .inl hid
  | some id =>
      refine .inr fun parent hparent hmem => ?_
      obtain ⟨top, htop, hclimb⟩ := hg parent hmem
      have hstored : bundle ∈ contents.bundles := by
        rw [append_since hp]
        exact List.mem_append_right _ hb
      have hup : Climb contents.Edge (distance + 1) id top :=
        .up ⟨bundle, hstored, hid, hparent⟩ hclimb
      obtain ⟨least, hle, hlevel⟩ := Level.exists_le htop hup
      exact h bundle hb id hid least (by omega) hlevel

theorem Far.descendants_eq (h : contents.Far earlier tops depth)
    (hp : earlier.bundles <+: contents.bundles) (levels : Nat) (hle : distance + levels ≤ depth)
    (hg : ∀ id ∈ generation, ∃ top ∈ tops, Climb contents.Edge distance id top)
    (seen : List BundleId) :
    contents.descendants levels generation seen = earlier.descendants levels generation seen := by
  induction levels generalizing generation seen distance with
  | zero => rfl
  | succ levels ih =>
      have hchildren : children generation seen contents.bundles =
          children generation seen earlier.bundles := by
        rw [append_since hp]
        exact children_append (h.passed (by omega) hp hg) seen
      have hnext : ∀ id ∈ (children generation seen earlier.bundles).filterMap Bundle.id,
          ∃ top ∈ tops, Climb contents.Edge (distance + 1) id top := by
        intro id hid
        obtain ⟨bundle, hb, hown⟩ := List.mem_filterMap.mp hid
        obtain ⟨hstored, parent, hparent, hmem⟩ := exists_of_mem_children hb
        obtain ⟨top, htop, hclimb⟩ := hg parent hmem
        exact ⟨top, htop, .up ⟨bundle, hp.subset hstored, hown, hparent⟩ hclimb⟩
      rw [descendants, descendants, hchildren]
      split
      · rfl
      · rename_i ids _
        rw [ih (by omega) hnext]

/-- **What is fetched is the same** when all that was stored since is far. -/
theorem Far.fetchBundles_eq (h : contents.Far earlier tops depth)
    (hp : earlier.bundles <+: contents.bundles) (ht : ∀ id ∈ tops, id ∈ earlier.ids) :
    contents.fetchBundles tops (some depth) = earlier.fetchBundles tops (some depth) := by
  rw [fetchBundles, fetchBundles, resolveAll_of_prefix hp ht]
  cases hr : earlier.resolveAll [] tops with
  | error error => rfl
  | ok found =>
      have hids : ∀ id ∈ found.filterMap Bundle.id,
          ∃ top ∈ tops, Climb contents.Edge 0 id top := by
        intro id hid
        have hmem := ((resolveAll_ok hr).2 id).mp hid |>.2
        obtain ⟨top, htop, hown⟩ := List.mem_filterMap.mp hmem
        rw [idOf?_of_mem_ids (ht top htop)] at hown
        cases hown
        exact ⟨id, htop, .here id⟩
      simp only [Except.map, Option.getD_some, h.descendants_eq hp depth (by omega) hids]

theorem not_level_of_root {id : BundleId} {level : Nat} (h : ∀ parent, ¬ contents.Edge id parent)
    (hn : id ∉ tops) : ¬ contents.Level tops level id := by
  rintro ⟨⟨top, htop, hclimb⟩, _⟩
  cases hclimb with
  | here => exact hn htop
  | up he _ => exact h _ he

end Contents

/-! ### What stands in for replaced bundles -/

/-- No new input is less than `depth` levels below an old one, and no old input is below a new one. -/
structure Request.Apart (request : Request) (contents : Contents) : Prop where
  new : ∀ id ∈ request.newInputs, ∀ level < request.depth,
    ¬ contents.Level request.oldInputs level id
  old : ∀ id ∈ request.oldInputs, ∀ new ∈ request.newInputs, ¬ TransGen contents.Edge id new

namespace Replayer.Account

variable {supply : IdSupply} {origin stock : Stock} {request : Request} {cache : Cache}
  {closure : List BundleId} {replayer : Replayer} {id new top : BundleId}

variable (h : Account supply request cache (request.targets closure) origin replayer stock)

include h

/-- What stands in for a bundle that rests on an old input is below a new one. -/
theorem transGen_newInput (hp : request.pairs.map Prod.fst = request.oldInputs)
    (hc : replayer.substitutions.contains id = true) (hrests : request.Rests cache id)
    (hget : replayer.substitutions.get? id = some (some new)) :
    ∃ input ∈ request.newInputs, TransGen stock.contents.Edge new input := by
  obtain ⟨input, hinput, hpath⟩ := hrests
  induction hpath using TransGen.head_induction_on generalizing new with
  | @single id hstep =>
      obtain ⟨found, hfound⟩ := h.exists_get? (h.settled.inputs input hinput)
      have hplanned := h.settled.mem_oldIds_of_rests hc ⟨input, hinput, .single hstep⟩
      exact ⟨found, mem_newInputs h.backed hp hinput hfound,
        .single (h.edge_of_passes hplanned hstep hget hfound)⟩
  | @head id mid hstep hrest ih =>
      have hmid := h.settled.contains_of_passes hc (.single hstep)
      obtain ⟨found, hfound⟩ := h.exists_get? hmid
      have hplanned := h.settled.mem_oldIds_of_rests hc ⟨input, hinput, .head hstep hrest⟩
      obtain ⟨last, hlast, hbelow⟩ := ih hmid hfound
      exact ⟨last, hlast, .head (h.edge_of_passes hplanned hstep hget hfound) hbelow⟩

/-- **How far what stands in for a replaced bundle is below the old inputs**: more than `depth` edges,
if the new inputs are apart from the old ones. -/
theorem depth_lt (hi : origin.contents.Identified) (hn : request.Named origin.contents)
    (hp : request.pairs.map Prod.fst = request.oldInputs)
    (hcollected : request.Collected origin.contents cache closure) (ho : request.oldOutput = none)
    (hg : stock.contents.Outgrows origin.contents) (hapart : request.Apart origin.contents) {n : Nat}
    (hid : id ∈ replayer.plan.oldIds) (hget : replayer.substitutions.get? id = some (some new))
    (htop : top ∈ request.oldInputs) (hclimb : Climb stock.contents.Edge n new top) :
    request.depth < n := by
  induction n generalizing id new with
  | zero =>
      -- an old input would stand in for the bundle, and it is not below a new one
      cases hclimb
      obtain ⟨_, _, _, _, _, _, haffected⟩ := h.settled.exists_entry hid
      have hlone : ¬ request.Lone id := by simp [Request.Lone, ho]
      obtain ⟨input, hinput, hpath⟩ := h.transGen_newInput hp (h.settled.contains_oldIds hid)
        (haffected.resolve_left hlone) hget
      have hmentioned := Contents.mentioned_of_mem_ids (hn.oldInputs top htop)
      exact absurd (hg.transGen hmentioned hpath) (hapart.old top htop input hinput)
  | succ n ih =>
      obtain _ | @⟨_, _, parent, _, hedge, hclimb⟩ := hclimb
      obtain ⟨entry, he, _, hcache, hentry, _⟩ := h.settled.exists_entry hid
      have hnew : entry.new.id = some new := by
        rw [hget] at hentry
        exact (Option.some.inj hentry).symm
      obtain ⟨above, habove, hparent⟩ := (h.edge_iff he hnew).mp hedge
      -- what stands in for the parent is a new input, planned as well, or the parent itself
      by_cases hinput : above ∈ request.oldInputs
      · have hmem := mem_newInputs h.backed hp hinput hparent
        have hmentioned := Contents.mentioned_of_mem_ids (hn.newInputs parent hmem)
        obtain ⟨least, hle, hlevel⟩ := Contents.Level.exists_le htop ((hg.climb_iff hmentioned).mp hclimb)
        by_contra hlt
        exact hapart.new parent hmem least (by omega) hlevel
      · by_cases hplanned : above ∈ replayer.plan.oldIds
        · have := ih hplanned hparent hclimb
          omega
        · have hmapped := h.woven.closed entry he above habove
          obtain ⟨hself, _⟩ :=
            h.settled.untouched above hmapped (h.settled.not_mem_downstream hinput hplanned)
          obtain rfl : parent = above := by
            rw [hparent, Option.some.injEq, Option.some.injEq] at hself
            exact hself
          have hmentioned := Contents.mentioned_of_edge
            (hcollected.mirrors.edge ⟨entry.old, hcache, habove⟩)
          obtain ⟨least, hle, hlevel⟩ :=
            Contents.Level.exists_le htop ((hg.climb_iff hmentioned).mp hclimb)
          by_contra hlt
          exact hplanned (Request.mem_oldIds_of_level hi hcollected h.settled ho hmapped hinput
            (by omega) hlevel)

theorem far (hi : origin.contents.Identified) (hn : request.Named origin.contents)
    (hp : request.pairs.map Prod.fst = request.oldInputs)
    (hcollected : request.Collected origin.contents cache closure) (ho : request.oldOutput = none)
    (hg : stock.contents.Outgrows origin.contents) (hapart : request.Apart origin.contents) :
    stock.contents.Far origin.contents request.oldInputs request.depth := by
  rintro made hmade new hnew level hle ⟨⟨top, htop, hclimb⟩, _⟩
  obtain ⟨entry, he, hsame, _⟩ := h.woven.added made hmade
  obtain ⟨id, other, hid, _, _, hother, hget, _⟩ := h.exists_new he
  obtain rfl : new = other := by
    rw [hsame] at hother
    exact Option.some.inj (hnew.symm.trans hother)
  have := h.depth_lt hi hn hp hcollected ho hg hapart (Plan.mem_oldIds.mpr ⟨entry, he, hid⟩) hget htop
    hclimb
  omega

end Replayer.Account

end Provenance
