import Provenance.Proofs.Affected

/-!
# Looking further

`Request.withDepth` is a request that looks at another number of levels.  What is collected for the
smaller number is collected for the larger one: the levels below the old inputs that are looked at
are among those looked at from further away, and so is what is above them.  A boundary that was not
fetched for the smaller number may be fetched for the larger one, so the walks go up more edges; none
of those that they went up before is missing, and what rests on an old input still does.

Main statement: `replay_plans_more`.
-/

namespace Provenance

open Relation

namespace Request

/-- The request that looks at another number of levels. -/
def withDepth (request : Request) (depth : Nat) : Request :=
  { request with depth }

variable {named : Request} {contents : Contents} {less more : Nat} {cache wider : Cache}
  {closure further : List BundleId} {id child parent : BundleId}

theorem inIds_withDepth (request : Request) (contents : Contents) (depth : Nat) :
    (request.withDepth depth).inIds contents = (request.inIds contents).withDepth depth := rfl

/-! ### What is collected -/

theorem Seed.mono (hle : less ≤ more) (h : (named.withDepth less).Seed contents id) :
    (named.withDepth more).Seed contents id := by
  unfold Seed at h ⊢
  cases ho : named.oldOutput with
  | some output =>
      simp only [withDepth, ho] at h ⊢
      exact h
  | none =>
      simp only [withDepth, ho] at h ⊢
      obtain ⟨level, hlevel, hl⟩ := h
      exact ⟨level, hlevel.trans hle, hl⟩

namespace Collected

theorem contains_mono (h : (named.withDepth less).Collected contents cache closure)
    (h' : (named.withDepth more).Collected contents wider further) (hle : less ≤ more)
    (hc : cache.contains id = true) : wider.contains id = true := by
  obtain ⟨seed, hs, hw⟩ := (h.contains_iff id).mp hc
  exact (h'.contains_iff id).mpr ⟨seed, hs.mono hle, hw.mono (Nat.sub_le_sub_right hle 1)⟩

theorem mem_mono (h : (named.withDepth less).Collected contents cache closure)
    (h' : (named.withDepth more).Collected contents wider further) (hle : less ≤ more)
    (hid : id ∈ closure) : id ∈ further := by
  obtain ⟨seed, hs, hw⟩ := (h.closure_iff id).mp hid
  exact (h'.closure_iff id).mpr ⟨seed, hs.mono hle, hw.mono hle⟩

theorem targets_mono (h : (named.withDepth less).Collected contents cache closure)
    (h' : (named.withDepth more).Collected contents wider further) (hle : less ≤ more)
    (ht : id ∈ (named.withDepth less).targets closure) :
    id ∈ (named.withDepth more).targets further := by
  unfold targets at ht ⊢
  cases ho : named.oldOutput with
  | some output =>
      simp only [withDepth, ho] at ht ⊢
      exact ht
  | none =>
      simp only [withDepth, ho] at ht ⊢
      exact h.mem_mono h' hle ht

theorem passes_mono (h : (named.withDepth less).Collected contents cache closure)
    (h' : (named.withDepth more).Collected contents wider further) (hle : less ≤ more)
    (hi : contents.Identified) (hs : (named.withDepth less).Passes cache child parent) :
    (named.withDepth more).Passes wider child parent := by
  obtain ⟨hc, hn, he⟩ := (h.passes_iff hi).mp hs
  exact (h'.passes_iff hi).mpr ⟨h.contains_mono h' hle hc, hn, he⟩

theorem rests_mono (h : (named.withDepth less).Collected contents cache closure)
    (h' : (named.withDepth more).Collected contents wider further) (hle : less ≤ more)
    (hi : contents.Identified) (hr : (named.withDepth less).Rests cache id) :
    (named.withDepth more).Rests wider id := by
  obtain ⟨input, hinput, hpath⟩ := hr
  exact ⟨input, hinput, TransGen.mono (fun _ _ => h.passes_mono h' hle hi) _ _ hpath⟩

end Collected

/-! ### What is planned -/

/-- What is planned in one settled replay is planned in another that looks further. -/
theorem mem_oldIds_mono {replayer deeper : Replayer} (hi : contents.Identified) (hle : less ≤ more)
    (h : (named.withDepth less).Collected contents cache closure)
    (hs : Replayer.Settled (named.withDepth less) cache ((named.withDepth less).targets closure)
      replayer)
    (h' : (named.withDepth more).Collected contents wider further)
    (hs' : Replayer.Settled (named.withDepth more) wider ((named.withDepth more).targets further)
      deeper)
    (hmapped : ∀ target ∈ (named.withDepth more).targets further,
      deeper.substitutions.contains target = true)
    (hid : id ∈ replayer.plan.oldIds) : id ∈ deeper.plan.oldIds := by
  obtain ⟨hc, hcache, hinput, haffected⟩ := hs.mem_oldIds_iff.mp hid
  have hreached : deeper.substitutions.contains id = true := by
    obtain ⟨target, htarget, hpath⟩ := hs.visited id hc hinput
    refine (hs'.contains_iff hmapped hinput).mpr ⟨target, h.targets_mono h' hle htarget, ?_⟩
    exact ReflTransGen.mono (fun _ _ => h.passes_mono h' hle hi) _ _ hpath
  exact hs'.mem_oldIds_iff.mpr ⟨hreached, h.contains_mono h' hle hcache, hinput,
    haffected.imp_right (h.rests_mono h' hle hi)⟩

/-- **Looking further drops no bundle**: of two replays of one store for the same request that both
succeed, the one that looks at more levels plans every old bundle that the other plans. -/
theorem replay_plans_more (supply : IdSupply) (store : Store) (request : Request)
    (hi : store.contents.Identified) (ha : store.contents.Acyclic) (hle : less ≤ more)
    {replayed deeper : Replayed}
    (hr : ((request.withDepth less).replay.run (Store.handle supply) store).1 = .ok replayed)
    (hd : ((request.withDepth more).replay.run (Store.handle supply) store).1 = .ok deeper) :
    (∀ id ∈ replayed.plan.oldIds, id ∈ deeper.plan.oldIds) ∧
      ∀ entry ∈ replayed.plan, ∃ other ∈ deeper.plan, other.old = entry.old := by
  obtain ⟨cache, closure, replayer, hcourse, hsettled⟩ :=
    replay_settled supply store _ hi ha (inIds_withDepth request store.contents less).symm hr
  obtain ⟨wider, further, last, hcourse', hsettled'⟩ :=
    replay_settled supply store _ hi ha (inIds_withDepth request store.contents more).symm hd
  have hids : ∀ id ∈ replayed.plan.oldIds, id ∈ deeper.plan.oldIds := by
    intro id hid
    rw [hcourse.plan] at hid
    rw [hcourse'.plan]
    exact mem_oldIds_mono hi hle hcourse.collected hsettled hcourse'.collected hsettled'
      hcourse'.mapped hid
  refine ⟨hids, ?_⟩
  intro entry hentry
  rw [hcourse.plan] at hentry
  obtain ⟨id, hid, hcache, -⟩ := hsettled.planned entry hentry
  have hplanned : id ∈ last.plan.oldIds := by
    rw [← hcourse'.plan]
    exact hids id (Plan.mem_oldIds.mpr ⟨entry, hcourse.plan ▸ hentry, hid⟩)
  obtain ⟨other, hother, -, hcache', -⟩ := hsettled'.exists_entry hplanned
  -- Both are the stored bundle of this id, with its state explained.
  obtain ⟨stored, hs, hown, he⟩ := hcourse.collected.mirrors id _ hcache
  obtain ⟨stored', hs', hown', he'⟩ := hcourse'.collected.mirrors id _ hcache'
  obtain rfl := hi.eq_of_id hs hs' (hown.trans hown'.symm)
  exact ⟨other, hcourse'.plan ▸ hother, he'.trans he.symm⟩

/-- Of the diamond, two levels above the output are not enough to replace all that is affected, and
three are. -/
theorem diamond_plans_more : ∃ replayed deeper,
    (((diamond (some "eval")).withDepth 2).replay.run (Store.handle Stock.strokes)
      Store.diamond).1 = .ok replayed ∧
    (((diamond (some "eval")).withDepth 3).replay.run (Store.handle Stock.strokes)
      Store.diamond).1 = .ok deeper ∧
    replayed.plan.oldIds = ["train", "eval"] ∧ deeper.plan.oldIds = ["prep", "train", "eval"] ∧
    ∀ entry ∈ replayed.plan, ∃ other ∈ deeper.plan, other.old = entry.old := by
  have hless : (((diamond (some "eval")).withDepth 2).replay.run (Store.handle Stock.strokes)
      Store.diamond).1.toOption.map (fun replayed => replayed.plan.oldIds) =
        some ["train", "eval"] := by
    decide
  have hmore : (((diamond (some "eval")).withDepth 3).replay.run (Store.handle Stock.strokes)
      Store.diamond).1.toOption.map (fun replayed => replayed.plan.oldIds) =
        some ["prep", "train", "eval"] := by
    decide
  obtain ⟨replayed, hr, hids⟩ := exists_ok_of_map hless
  obtain ⟨deeper, hd, hids'⟩ := exists_ok_of_map hmore
  have hordered : Store.diamond.contents.Ordered := by decide
  have h := replay_plans_more Stock.strokes Store.diamond (diamond (some "eval")) (by decide)
    hordered.acyclic (by decide) hr hd
  exact ⟨replayed, deeper, hr, hd, hids, hids', h.2⟩

end Request

end Provenance
