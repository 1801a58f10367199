import Provenance.Proofs.Affected
import Provenance.Proofs.Weaving

/-!
# A second replay

What a first replay leaves is replayed again.  Of the bundles that were there before the first replay,
the second one comes to no others, as long as nothing is `Request.Deep`: the first one has already
seen all that is below the old inputs.  So it plans them again, finds for each the keys that it was
replaced by, and takes over what the first one has left (`Reprise.entry_eq`, `Reprise.get?_eq`).  What
it creates stands in for bundles that the first one has created.
-/

namespace Provenance

open Relation

/-- A bundle is above a given one, or is this itself, that is more than `depth` levels below the old
inputs.  A replay looks at such bundles only if they are near others that it looks at. -/
def Request.Deep (request : Request) (contents : Contents) (id : BundleId) : Prop :=
  ∃ above level, ReflTransGen contents.Edge id above ∧ request.depth < level ∧
    contents.Level request.oldInputs level above

theorem Request.Deep.of_edge {request : Request} {contents : Contents} {id parent : BundleId}
    (h : request.Deep contents parent) (he : contents.Edge id parent) : request.Deep contents id := by
  obtain ⟨above, level, hpath, hlt, hl⟩ := h
  exact ⟨above, level, .head he hpath, hlt, hl⟩

theorem Request.le_of_not_deep {request : Request} {contents : Contents} {id : BundleId} {level : Nat}
    (h : ¬ request.Deep contents id) (hl : contents.Level request.oldInputs level id) :
    level ≤ request.depth := by
  by_contra hlt
  exact h ⟨id, level, .refl, by omega, hl⟩

namespace Replayer

/-- A replay without an output has come to its end, and its walks account for what it left.  A second
replay has begun there, whose walks account for the bundles that there are by now. -/
structure Reprise (supply : IdSupply) (request : Request) (origin : Stock) (cache : Cache)
    (closure : List BundleId) (replayer : Replayer) (stock : Stock) (cache' : Cache)
    (closure' : List BundleId) (replayer' : Replayer) (stock' : Stock) : Prop where
  output : request.oldOutput = none
  paired : request.pairs.map Prod.fst = request.oldInputs
  identified : origin.contents.Identified
  acyclic : origin.contents.Acyclic
  outgrows : stock.contents.Outgrows origin.contents
  collected : request.Collected origin.contents cache closure
  account : Account supply request cache (request.targets closure) origin replayer stock
  mapped : ∀ id ∈ request.targets closure, replayer.substitutions.contains id = true
  collected' : request.Collected stock.contents cache' closure'
  account' : Account supply request cache' (request.targets closure') stock replayer' stock'

namespace Reprise

variable {supply : IdSupply} {request : Request} {origin stock stock' : Stock}
  {cache cache' : Cache} {closure closure' : List BundleId} {replayer replayer' : Replayer}
  {id : BundleId} {entry entry' : PlanEntry} {made : Bundle}

variable (h : Reprise supply request origin cache closure replayer stock cache' closure' replayer'
  stock')

include h

theorem mem_oldIds_iff (hid : id ∈ origin.contents.mentioned)
    (hdeep : ¬ request.Deep origin.contents id)
    (hc : replayer'.substitutions.contains id = true) :
    id ∈ replayer'.plan.oldIds ↔ id ∈ replayer.plan.oldIds := by
  constructor
  · intro hplanned
    obtain ⟨hn, level, hl⟩ :=
      Request.exists_level_of_mem_oldIds h.collected' h.account'.settled h.output hplanned
    have hl := (h.outgrows.level_iff hid).mp hl
    have hle := Request.le_of_not_deep hdeep hl
    have hmapped := h.mapped id (h.collected.mem_targets_of_level h.output hle hl)
    exact Request.mem_oldIds_of_level h.identified h.collected h.account.settled h.output hmapped hn
      hle hl
  · intro hplanned
    obtain ⟨hn, level, hl⟩ :=
      Request.exists_level_of_mem_oldIds h.collected h.account.settled h.output hplanned
    exact Request.mem_oldIds_of_level h.account.backed.identified h.collected' h.account'.settled
      h.output hc hn (Request.le_of_not_deep hdeep hl) ((h.outgrows.level_iff hid).mpr hl)

theorem old_eq (he : entry ∈ replayer.plan) (he' : entry' ∈ replayer'.plan)
    (hid : entry.old.id = some id) (hid' : entry'.old.id = some id) : entry'.old = entry.old := by
  obtain ⟨stored, hstored, hsid, hold⟩ := h.collected.mirrors _ _ (h.account.get?_old he hid)
  obtain ⟨stored', hstored', hsid', hold'⟩ := h.collected'.mirrors _ _ (h.account'.get?_old he' hid')
  rw [hold, hold', h.account.backed.identified.eq_of_id hstored'
    (h.account.woven.grown.subset hstored) (hsid'.trans hsid.symm)]

/-- What was planned is planned again, if the same stands in for the parents: what the first replay
has left is still the latest bundle with these keys. -/
theorem entry_eq (he : entry ∈ replayer.plan) (he' : entry' ∈ replayer'.plan)
    (hid : entry.old.id = some id) (hid' : entry'.old.id = some id)
    (hdeep : ¬ request.Deep origin.contents id)
    (hget : ∀ parent, origin.contents.Edge id parent → parent ∈ origin.contents.mentioned →
      ¬ request.Deep origin.contents parent → replayer.substitutions.contains parent = true →
      replayer'.substitutions.contains parent = true →
      replayer'.substitutions.get? parent = replayer.substitutions.get? parent) :
    entry' = entry := by
  have hold := h.old_eq he he' hid hid'
  have hparents : ∀ parent ∈ entry.old.parents,
      replayer'.standIn parent = replayer.standIn parent := by
    intro parent hparent
    have hedge := h.collected.mirrors.edge ⟨entry.old, h.account.get?_old he hid, hparent⟩
    rw [standIn, standIn, hget parent hedge (Contents.mentioned_of_edge hedge)
      (fun hd => hdeep (hd.of_edge hedge)) (h.account.woven.closed entry he parent hparent)
      (h.account'.woven.closed entry' he' parent (hold ▸ hparent))]
  have hkeys : Contents.sortedKeys entry'.new.keys = Contents.sortedKeys entry.new.keys := by
    rw [h.account'.woven.keys entry' he', h.account.woven.keys entry he, hold, standIns_congr hparents]
  have hlatest := h.account'.latest _ h.account.current.latest entry he
  have hlatest' := h.account'.current.latest entry' he'
  rw [hold, Contents.searchBundles_congr hkeys, hlatest, Option.some.injEq] at hlatest'
  obtain ⟨old, new⟩ := entry
  obtain ⟨old', new'⟩ := entry'
  rw [PlanEntry.mk.injEq]
  exact ⟨hold, hlatest'.symm⟩

/-- **The same stands in for a bundle in both replays**, if they have come to it, it was there before
and it is not deep. -/
theorem get?_eq (hid : id ∈ origin.contents.mentioned) (hdeep : ¬ request.Deep origin.contents id)
    (hc : replayer.substitutions.contains id = true)
    (hc' : replayer'.substitutions.contains id = true) :
    replayer'.substitutions.get? id = replayer.substitutions.get? id := by
  induction id using h.acyclic.wellFounded.induction with
  | h id ih =>
      by_cases hinput : id ∈ request.oldInputs
      · obtain ⟨pair, hpair⟩ : ∃ pair, request.pairs.find? (fun pair => pair.1 = id) = some pair := by
          rw [← h.paired] at hinput
          by_contra hnone
          exact Request.find?_pairs_eq_none.mp (Option.eq_none_iff_forall_ne_some.mpr
            fun pair hpair => hnone ⟨pair, hpair⟩) hinput
        rw [h.account.backed.paired id pair hpair, h.account'.backed.paired id pair hpair]
      · have hsame := h.mem_oldIds_iff hid hdeep hc'
        by_cases hplanned : id ∈ replayer.plan.oldIds
        · obtain ⟨entry, he, hown, _, hget, _⟩ := h.account.settled.exists_entry hplanned
          obtain ⟨entry', he', hown', _, hget', _⟩ :=
            h.account'.settled.exists_entry (hsame.mpr hplanned)
          rw [hget, hget', h.entry_eq he he' hown hown' hdeep ih]
        · have hself := (h.account.settled.untouched id hc
            (h.account.settled.not_mem_downstream hinput hplanned)).1
          have hself' := (h.account'.settled.untouched id hc'
            (h.account'.settled.not_mem_downstream hinput (hsame.not.mpr hplanned))).1
          rw [hself, hself']

theorem mem_plan (hid : id ∈ origin.contents.mentioned) (hdeep : ¬ request.Deep origin.contents id)
    (he' : entry' ∈ replayer'.plan) (hown' : entry'.old.id = some id) : entry' ∈ replayer.plan := by
  have hplanned' := Plan.mem_oldIds.mpr ⟨entry', he', hown'⟩
  have hmapped := h.account'.settled.contains_oldIds hplanned'
  obtain ⟨entry, he, hown⟩ := Plan.mem_oldIds.mp ((h.mem_oldIds_iff hid hdeep hmapped).mp hplanned')
  rw [h.entry_eq he he' hown hown' hdeep fun _ _ => h.get?_eq]
  exact he

theorem mem_plan' (hmapped : ∀ id ∈ request.targets closure', replayer'.substitutions.contains id = true)
    (hdeep : ¬ request.Deep origin.contents id) (he : entry ∈ replayer.plan)
    (hown : entry.old.id = some id) : entry ∈ replayer'.plan := by
  have hplanned := Plan.mem_oldIds.mpr ⟨entry, he, hown⟩
  obtain ⟨_, level, hl⟩ :=
    Request.exists_level_of_mem_oldIds h.collected h.account.settled h.output hplanned
  have hid : id ∈ origin.contents.mentioned := by
    obtain ⟨stored, hstored, hsid, _⟩ := h.collected.mirrors _ _ (h.account.get?_old he hown)
    exact Contents.mentioned_of_mem_bundles hstored hsid
  have hc := hmapped id (h.collected'.mem_targets_of_level h.output
    (Request.le_of_not_deep hdeep hl) ((h.outgrows.level_iff hid).mpr hl))
  obtain ⟨entry', he', hown'⟩ := Plan.mem_oldIds.mp ((h.mem_oldIds_iff hid hdeep hc).mpr hplanned)
  rw [← h.entry_eq he he' hown hown' hdeep fun _ _ => h.get?_eq]
  exact he'

/-- **What the second replay creates** it creates for bundles that the first one has created, or for
deep ones. -/
theorem exists_createdFor (hmade : made ∈ stock'.contents.since stock.contents) :
    ∃ old ∈ stock.contents.bundles, made.CreatedFor old replayer' supply request stock ∧
      (old ∈ stock.contents.since origin.contents ∨
        ∃ id, old.id = some id ∧ request.Deep origin.contents id) := by
  obtain ⟨entry', he', hnew, hcreated⟩ := h.account'.woven.added made hmade
  obtain ⟨id, new, hown, hcache, _, hid, _⟩ := h.account'.exists_new he'
  obtain ⟨old, hstored, hsid, hold⟩ := h.collected'.mirrors _ _ hcache
  rw [hold] at hcreated
  refine ⟨old, hstored, hcreated, ?_⟩
  rw [Contents.append_since h.outgrows.grown, List.mem_append] at hstored
  refine hstored.symm.imp_right fun hbefore => ⟨id, hsid, ?_⟩
  -- were it not deep, the first replay would have planned it with the same new bundle
  by_contra hdeep
  have hmentioned := Contents.mentioned_of_mem_bundles hbefore hsid
  obtain ⟨_, other, _, _, _, hother, _, stored, hfirst, hfid, _⟩ :=
    h.account.exists_new (h.mem_plan hmentioned hdeep he' hown)
  obtain rfl : new = other := Option.some.inj (hid.symm.trans hother)
  have hmid : made.id = some new := by
    rw [← hid, hnew]
    rfl
  exact (h.account'.outgrows h.account.woven.avoids).new made hmade new hmid
    (Contents.mentioned_of_mem_bundles hfirst hfid)

end Reprise

end Replayer

end Provenance
