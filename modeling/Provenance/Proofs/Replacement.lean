import Provenance.Proofs.Classification

/-!
# What a replay rests on

A replay that is no dry run maps each bundle that it comes to.  `Backed` is what its walks keep of
the store: what stands in for a replaced bundle has as parents only what stands in for the parents of
the old one, whether it was created or taken over.  So a path up from what stands in for the output
stays among what stands in for old bundles, until it comes to a new input or to a bundle that was
taken over.

Main statement: `replay_rests_on_new_inputs`.
-/

namespace Provenance

open Relation

/-! ### Stored bundles -/

namespace Contents

variable {contents : Contents}

theorem edge_congr {after : Contents} (h : after.bundles = contents.bundles) :
    after.Edge = contents.Edge := by
  funext child parent
  rw [Edge, Edge, h]

theorem parents_of_mem_searchBundles {command : Option String} {wanted found : Bundle}
    (h : found ∈ contents.searchBundles command wanted.keys) : ∃ stored ∈ contents.bundles,
      found = stored.explained ∧ ∀ parent ∈ stored.parents, parent ∈ wanted.parents := by
  obtain ⟨stored, hs, rfl⟩ := List.mem_map.mp h
  obtain ⟨hmem, hfilter⟩ := List.mem_filter.mp hs
  obtain ⟨_, hkeys⟩ : stored.command = command ∧ sortedKeys stored.keys = sortedKeys wanted.keys := by
    simpa using hfilter
  refine ⟨stored, hmem, rfl, ?_⟩
  intro parent hp
  have hperm : stored.keys.Perm wanted.keys := by
    refine (List.mergeSort_perm stored.keys DependencyKey.le).symm.trans ?_
    rw [show stored.keys.mergeSort DependencyKey.le = wanted.keys.mergeSort DependencyKey.le from hkeys]
    exact List.mergeSort_perm wanted.keys DependencyKey.le
  obtain ⟨dependency, hd, rfl⟩ := List.mem_map.mp hp
  have hkey : dependency.key ∈ wanted.keys := hperm.subset (List.mem_map_of_mem hd)
  obtain ⟨other, ho, he⟩ := List.mem_map.mp hkey
  have hparent : other.parentId = dependency.parentId := congrArg DependencyKey.parentId he
  rw [← hparent]
  exact List.mem_map_of_mem ho

end Contents

/-! ### What walks keep -/

namespace Replayer

variable {supply : IdSupply} {stock after : Stock} {request : Request} {cache : Cache}
  {replayer next : Replayer} {id current parent : BundleId} {old made : Bundle}
  {initial : Contents}

/-- What holds of the store and the mapping between two moves; `initial` is what was stored at the
beginning. -/
structure Backed (supply : IdSupply) (request : Request) (initial : Contents) (replayer : Replayer)
    (stock : Stock) : Prop where
  fresh : stock.Fresh supply
  identified : stock.contents.Identified
  kept : ∀ bundle ∈ initial.bundles, bundle ∈ stock.contents.bundles
  paired : ∀ id pair, request.pairs.find? (fun pair => pair.1 = id) = some pair →
    replayer.substitutions.get? id = some (some pair.2)
  target : ∀ id new, replayer.substitutions.get? id = some new → new.isSome = true
  entries : ∀ entry ∈ replayer.plan, ∃ id, entry.new.id = some id ∧ id ∈ stock.contents.ids ∧
    (request.memoize = true ∨ id ∉ initial.ids) ∧
    ∀ parent, stock.contents.Edge id parent → ∃ old ∈ entry.old.parents,
      replayer.substitutions.get? old = some (some parent)

theorem standIn_of_get? {new : BundleId} (h : replayer.substitutions.get? parent = some (some new)) :
    replayer.standIn parent = new := by
  rw [standIn, h]

namespace Backed

theorem start (hf : stock.Fresh supply) (hi : stock.contents.Identified) :
    Backed supply request stock.contents (start request) stock := by
  refine ⟨hf, hi, fun _ hb => hb, ?_, ?_, ?_⟩
  · intro id pair hpair
    rw [get?_start, hpair]
    rfl
  · intro id new hnew
    rw [get?_start, Option.map_eq_some_iff] at hnew
    obtain ⟨pair, _, rfl⟩ := hnew
    rfl
  · intro entry he
    cases he

theorem map (h : Backed supply request initial replayer stock) (new : BundleId) :
    Backed supply request initial (replayer.map current (some new)) stock := by
  refine ⟨h.fresh, h.identified, h.kept, ?_, ?_, ?_⟩
  · intro id pair hpair
    exact Register.get?_add_of_some (h.paired id pair hpair)
  · intro id target ht
    rw [map_substitutions, Register.get?_add] at ht
    split at ht
    · cases ht
      rfl
    · exact h.target id target ht
  · intro entry he
    obtain ⟨id, hid, hmem, hinitial, hedges⟩ := h.entries entry he
    refine ⟨id, hid, hmem, hinitial, fun parent hp => ?_⟩
    obtain ⟨old, hold, hget⟩ := hedges parent hp
    exact ⟨old, hold, Register.get?_add_of_some hget⟩

theorem exists_of_mem_standIns (h : Backed supply request initial replayer stock)
    (hparents : ∀ parent ∈ old.parents, replayer.substitutions.contains parent = true)
    (hp : parent ∈ (replayer.standIns old.dependencies).map Dependency.parentId) :
    ∃ above ∈ old.parents, replayer.substitutions.get? above = some (some parent) := by
  rw [standIns, List.map_map] at hp
  obtain ⟨dependency, hd, rfl⟩ := List.mem_map.mp hp
  have habove : dependency.parentId ∈ old.parents := List.mem_map_of_mem hd
  obtain ⟨target, ht⟩ := Option.isSome_iff_exists.mp (hparents _ habove)
  obtain ⟨new, rfl⟩ := Option.isSome_iff_exists.mp (h.target _ target ht)
  refine ⟨dependency.parentId, habove, ?_⟩
  rw [ht]
  exact congrArg (fun new => some (some new)) (standIn_of_get? ht).symm

theorem record (h : Backed supply request initial replayer stock) (hf : after.Fresh supply)
    (hi : after.contents.Identified)
    (hkept : ∀ bundle ∈ stock.contents.bundles, bundle ∈ after.contents.bundles)
    (hedge : ∀ child ∈ stock.contents.ids, ∀ parent, after.contents.Edge child parent →
      stock.contents.Edge child parent)
    (hid : made.id = some id) (hmem : id ∈ after.contents.ids)
    (hinitial : request.memoize = true ∨ id ∉ initial.ids)
    (hparents : ∀ parent, after.contents.Edge id parent →
      ∃ above ∈ old.parents, replayer.substitutions.get? above = some (some parent))
    (hs : next.substitutions = replayer.substitutions.add current made.id)
    (hp : next.plan = replayer.plan ++ [⟨old, made⟩]) :
    Backed supply request initial next after := by
  refine ⟨hf, hi, fun bundle hb => hkept bundle (h.kept bundle hb), ?_, ?_, ?_⟩
  · intro id pair hpair
    rw [hs]
    exact Register.get?_add_of_some (h.paired id pair hpair)
  · intro other target ht
    rw [hs, Register.get?_add] at ht
    split at ht
    · cases ht
      rw [hid]
      rfl
    · exact h.target other target ht
  · intro entry he
    rw [hp, List.mem_append, List.mem_singleton] at he
    rw [hs]
    rcases he with he | rfl
    · obtain ⟨own, hown, hstored, hentry, hedges⟩ := h.entries entry he
      obtain ⟨bundle, hb, hbid⟩ := Contents.mem_ids.mp hstored
      have hlater : own ∈ after.contents.ids := Contents.mem_ids.mpr ⟨bundle, hkept bundle hb, hbid⟩
      refine ⟨own, hown, hlater, hentry, fun parent hparent => ?_⟩
      obtain ⟨above, habove, hget⟩ := hedges parent (hedge own hstored parent hparent)
      exact ⟨above, habove, Register.get?_add_of_some hget⟩
    · refine ⟨id, hid, hmem, hinitial, fun parent hparent => ?_⟩
      obtain ⟨above, habove, hget⟩ := hparents parent hparent
      exact ⟨above, habove, Register.get?_add_of_some hget⟩

theorem resolve (h : Backed supply request initial replayer stock) (hdry : request.dryRun = false)
    (hparents : ∀ parent ∈ old.parents, replayer.substitutions.contains parent = true)
    (hr : Resolution supply request replayer current old stock next after) :
    Backed supply request initial next after := by
  cases hr with
  | unaffected => exact h.map current
  | planned _ hd =>
      rw [hdry] at hd
      cases hd
  | @reused existing _ _ hm hs =>
      obtain ⟨stored, hstored, rfl, hwanted⟩ :=
        Contents.parents_of_mem_searchBundles (List.mem_of_getLast? hs)
      obtain ⟨id, hid⟩ := Option.isSome_iff_exists.mp (h.identified.isSome stored hstored)
      have hfound : stored.explained.id = some id := hid
      refine h.record h.fresh h.identified (fun _ hb => hb) (fun _ _ _ he => he) hfound
        (Contents.mem_ids.mpr ⟨stored, hstored, hid⟩) (.inl hm) ?_ rfl rfl
      intro parent hparent
      have hmem := hwanted parent ((h.identified.edge_iff hstored hid).mp hparent)
      exact h.exists_of_mem_standIns hparents hmem
  | @created made _ _ _ _ _ hs =>
      obtain ⟨hmade, hbundles, _⟩ := hs.createBundle
      have hids := hs.createBundle_ids
      have hnew : supply stock.allocated ∉ stock.contents.ids := h.fresh.new _ (Nat.le_refl _)
      have hidentified := h.identified.append hbundles rfl hnew
      have hnewest : stock.contents.newBundle (replayer.description request current old)
          (supply stock.allocated) ∈ after.contents.bundles := by
        rw [hbundles]
        exact List.mem_append_right _ List.mem_cons_self
      refine h.record (h.fresh.createBundle hs) hidentified ?_ ?_ (by rw [hmade]; rfl) ?_ ?_ ?_ rfl rfl
      · intro bundle hb
        rw [hbundles]
        exact List.mem_append_left _ hb
      · rintro child hchild parent ⟨bundle, hb, hbid, hp⟩
        rw [hbundles, List.mem_append, List.mem_singleton] at hb
        rcases hb with hb | rfl
        · exact ⟨bundle, hb, hbid, hp⟩
        · rw [Contents.newBundle_id, Option.some.injEq] at hbid
          exact absurd (hbid ▸ hchild) hnew
      · rw [hids]
        exact List.mem_append_right _ List.mem_cons_self
      · right
        intro hinitial
        obtain ⟨bundle, hb, hbid⟩ := Contents.mem_ids.mp hinitial
        exact hnew (Contents.mem_ids.mpr ⟨bundle, h.kept bundle hb, hbid⟩)
      · intro parent hparent
        have hp := (hidentified.edge_iff hnewest rfl).mp hparent
        refine h.exists_of_mem_standIns hparents ?_
        simpa [Bundle.parents, Contents.newBundle_dependencies, Function.comp_def] using hp

end Backed

end Replayer

/-! ### Paths up from what stands in -/

/-- What stands in for an old bundle in what a replay gives: the bundle that is planned for it, its
new input, or the bundle itself. -/
def Replayed.standIn? (replayed : Replayed) (request : Request) (id : BundleId) :
    Option BundleId :=
  match replayed.plan.entryFor? id with
  | some entry => entry.new.id
  | none =>
    match request.pairs.find? fun pair => pair.1 = id with
    | some pair => some pair.2
    | none => some id

namespace Replayer

variable {supply : IdSupply} {stock : Stock} {request : Request} {cache : Cache}
  {replayer : Replayer} {targets : List BundleId} {id parent new input : BundleId}
  {initial : Contents}

theorem exists_standIn? (hs : Settled request cache targets replayer)
    (hb : Backed supply request initial replayer stock)
    (hp : request.pairs.map Prod.fst = request.oldInputs)
    (hc : replayer.substitutions.contains id = true) {replayed : Replayed}
    (hplan : replayed.plan = replayer.plan) : ∃ new, replayed.standIn? request id = some new ∧
      replayer.substitutions.get? id = some (some new) := by
  unfold Replayed.standIn?
  rw [hplan]
  cases he : replayer.plan.entryFor? id with
  | some entry =>
      have hmem := List.mem_of_find?_eq_some he
      have hold : entry.old.id = some id := by simpa using List.find?_some he
      obtain ⟨own, hown, _, hget, _⟩ := hs.planned entry hmem
      obtain rfl := Option.some.inj (hold.symm.trans hown)
      obtain ⟨new, hnew, _⟩ := hb.entries entry hmem
      exact ⟨new, hnew, hnew ▸ hget⟩
  | none =>
      cases hpair : request.pairs.find? fun pair => pair.1 = id with
      | some pair => exact ⟨pair.2, rfl, hb.paired id pair hpair⟩
      | none =>
          have hinput : id ∉ request.oldInputs := hp ▸ Request.find?_pairs_eq_none.mp hpair
          have hplanned : id ∉ replayer.plan.oldIds := Plan.entryFor?_eq_none.mp he
          exact ⟨id, rfl, (hs.untouched id hc (hs.not_mem_downstream hinput hplanned)).1⟩

theorem mem_newInputs (hb : Backed supply request initial replayer stock)
    (hp : request.pairs.map Prod.fst = request.oldInputs) (hi : id ∈ request.oldInputs)
    (hget : replayer.substitutions.get? id = some (some new)) : new ∈ request.newInputs := by
  cases hpair : request.pairs.find? fun pair => pair.1 = id with
  | none =>
      rw [← hp] at hi
      exact absurd hi (Request.find?_pairs_eq_none.mp hpair)
  | some pair =>
      have hnew := hb.paired id pair hpair
      rw [hget, Option.some.injEq, Option.some.injEq] at hnew
      rw [hnew]
      exact (List.of_mem_zip (List.mem_of_find?_eq_some hpair)).2

/-- The parents of what stands in for a mapped bundle stand in for mapped bundles, unless the bundle
is an old input. -/
theorem exists_of_edge (hs : Settled request cache targets replayer)
    (hb : Backed supply request initial replayer stock) (hm : cache.Mirrors initial)
    (hcached : ∀ id, replayer.substitutions.contains id = true → id ∉ request.oldInputs →
      cache.contains id = true)
    (hi : id ∉ request.oldInputs) (hget : replayer.substitutions.get? id = some (some new))
    (he : stock.contents.Edge new parent) :
    ∃ above, replayer.substitutions.get? above = some (some parent) := by
  have hc : replayer.substitutions.contains id = true := by simp [Register.contains, hget]
  by_cases hplanned : id ∈ replayer.plan.oldIds
  · obtain ⟨entry, hmem, _, _, htarget, _⟩ := hs.exists_entry hplanned
    obtain ⟨other, hother, _, _, hedges⟩ := hb.entries entry hmem
    obtain rfl : new = other := by
      rw [hget, hother, Option.some.injEq, Option.some.injEq] at htarget
      exact htarget
    obtain ⟨above, _, habove⟩ := hedges parent he
    exact ⟨above, habove⟩
  · have hnot := hs.not_mem_downstream hi hplanned
    obtain ⟨hself, huntouched⟩ := hs.untouched id hc hnot
    obtain rfl : new = id := by
      rw [hget, Option.some.injEq, Option.some.injEq] at hself
      exact hself
    obtain ⟨old, ho⟩ := Option.isSome_iff_exists.mp (hcached new hc hi)
    obtain ⟨stored, hstored, hid, rfl⟩ := hm new old ho
    have hparent : parent ∈ stored.parents :=
      (hb.identified.edge_iff (hb.kept stored hstored) hid).mp he
    have hpc := hs.closed new _ hc hi ho parent hparent
    exact ⟨parent, (hs.untouched parent hpc ((huntouched _ ho).2 parent hparent)).1⟩

/-- What stands in for a bundle that is no old input, and is one itself, was taken over. -/
theorem memoize_of_mem_oldInputs (hs : Settled request cache targets replayer)
    (hb : Backed supply request initial replayer stock)
    (hn : ∀ id ∈ request.oldInputs, id ∈ initial.ids) (hi : id ∉ request.oldInputs)
    (hget : replayer.substitutions.get? id = some (some new)) (hnew : new ∈ request.oldInputs) :
    request.memoize = true ∧ ∃ entry ∈ replayer.plan, entry.new.id = some new := by
  have hc : replayer.substitutions.contains id = true := by simp [Register.contains, hget]
  by_cases hplanned : id ∈ replayer.plan.oldIds
  · obtain ⟨entry, hmem, _, _, htarget, _⟩ := hs.exists_entry hplanned
    obtain ⟨other, hother, _, hinitial, _⟩ := hb.entries entry hmem
    obtain rfl : new = other := by
      rw [hget, hother, Option.some.injEq, Option.some.injEq] at htarget
      exact htarget
    exact ⟨hinitial.resolve_right fun hnot => hnot (hn new hnew), entry, hmem, hother⟩
  · have hnot := hs.not_mem_downstream hi hplanned
    have hself := (hs.untouched id hc hnot).1
    rw [hget, Option.some.injEq, Option.some.injEq] at hself
    exact absurd (hself ▸ hnew) hi

/-- A path up from what stands in for a mapped bundle to an old input goes through a new input, or
the old input was taken over. -/
theorem path_passes (hs : Settled request cache targets replayer)
    (hb : Backed supply request initial replayer stock) (hm : cache.Mirrors initial)
    (hp : request.pairs.map Prod.fst = request.oldInputs)
    (hn : ∀ id ∈ request.oldInputs, id ∈ initial.ids)
    (hcached : ∀ id, replayer.substitutions.contains id = true → id ∉ request.oldInputs →
      cache.contains id = true)
    (path : List BundleId) (hget : replayer.substitutions.get? id = some (some new))
    (hchain : (new :: path).IsChain stock.contents.Edge)
    (hlast : (new :: path).getLast? = some input) (hinput : input ∈ request.oldInputs) :
    (∃ other ∈ new :: path, other ∈ request.newInputs) ∨
      request.memoize = true ∧ ∃ entry ∈ replayer.plan, entry.new.id = some input := by
  induction path generalizing id new with
  | nil =>
      obtain rfl : new = input := by simpa using hlast
      by_cases hi : id ∈ request.oldInputs
      · exact .inl ⟨new, List.mem_cons_self, mem_newInputs hb hp hi hget⟩
      · exact .inr (memoize_of_mem_oldInputs hs hb hn hi hget hinput)
  | cons parent path ih =>
      by_cases hi : id ∈ request.oldInputs
      · exact .inl ⟨new, List.mem_cons_self, mem_newInputs hb hp hi hget⟩
      · obtain ⟨hedge, hrest⟩ := List.isChain_cons_cons.mp hchain
        obtain ⟨above, habove⟩ := exists_of_edge hs hb hm hcached hi hget hedge
        rw [List.getLast?_cons_cons] at hlast
        refine (ih habove hrest hlast).imp_left ?_
        rintro ⟨other, hmem, hother⟩
        exact ⟨other, List.mem_cons_of_mem _ hmem, hother⟩

theorem kept_backed (ha : cache.Acyclic) (hdry : request.dryRun = false) (first : Replayer)
    (targets : List BundleId) :
    Kept supply request cache first targets (Backed supply request initial) where
  keep h _ _ _ := h.map _
  resolve h _ _ ho hparents hr := h.resolve hdry (contains_parents ha ho hparents) hr

end Replayer

namespace Request

variable {named : Request} {output : BundleId}

theorem Collected.contains_of_passes {contents : Contents} {cache : Cache}
    {closure : List BundleId} {request : Request} {id : BundleId}
    (h : request.Collected contents cache closure) (ho : request.oldOutput = some output)
    (hdepth : ∀ ancestor, TransGen contents.Edge output ancestor →
      ∃ distance < request.depth, Climb contents.Edge distance output ancestor)
    (hpath : ReflTransGen (request.Passes cache) output id) : cache.contains id = true := by
  have hseed : request.Seed contents output := by
    rw [Seed, ho]
  refine (h.contains_iff id).mpr ⟨output, hseed, output, List.mem_cons_self, ?_⟩
  have hup : ReflTransGen contents.Edge output id :=
    ReflTransGen.mono (fun _ _ hs => h.mirrors.edge hs.2) _ _ hpath
  rcases reflTransGen_iff_eq_or_transGen.mp hup with rfl | hup
  · exact ⟨0, Nat.zero_le _, .here id⟩
  · obtain ⟨distance, hlt, hclimb⟩ := hdepth id hup
    exact ⟨distance, by omega, hclimb⟩

/-- **Complete replacement.**  When a replay of an output succeeds that looks beyond all its
ancestors, every path up from what stands in for the output to an old input goes through a new
input, unless the old input was itself taken over as an equivalent bundle. -/
theorem replay_rests_on_new_inputs (supply : IdSupply) (store : Store) (request : Request)
    (hi : store.contents.Identified) (ha : store.contents.Acyclic)
    (hf : store.stock.Fresh supply) (hdry : request.dryRun = false)
    (hnamed : named = request.inIds store.contents) (ho : named.oldOutput = some output)
    (hdepth : ∀ ancestor, TransGen store.contents.Edge output ancestor →
      ∃ distance < request.depth, Climb store.contents.Edge distance output ancestor)
    {replayed : Replayed} {final : Store}
    (hr : request.replay.run (Store.handle supply) store = (.ok replayed, final)) :
    ∃ new, replayed.standIn? named output = some new ∧ ∀ path input,
      (new :: path).IsChain final.contents.Edge → (new :: path).getLast? = some input →
      input ∈ named.oldInputs → (∃ id ∈ new :: path, id ∈ named.newInputs) ∨
        request.memoize = true ∧ ∃ entry ∈ replayed.plan, entry.new.id = some input := by
  have hdry' : named.dryRun = false := by rw [hnamed]; exact hdry
  have hdepth' : named.depth = request.depth := by rw [hnamed]; rfl
  have hmemoize : named.memoize = request.memoize := by rw [hnamed]; rfl
  have hens : request.replay.Ensures supply store.stock _ :=
    replay_ensures request
      (fun cache closure replayer stock =>
        Replayer.Settled named cache (named.targets closure) replayer ∧
          Replayer.Backed supply named store.contents replayer stock)
      hi hnamed
      (fun cache closure _ hp hc => ⟨⟨.start hp _, .start hf hi⟩,
        (Replayer.kept_settled (hc.mirrors.acyclic ha) hc.mirrors.keyed hp
          (named.eq_of_mem_targets closure)).and
            (Replayer.kept_backed (hc.mirrors.acyclic ha) hdry' _ _)⟩)
  have hrun := hens.run (Store.handle_serves supply)
  rw [hr] at hrun
  obtain ⟨cache, closure, replayer, mid, hcourse, ⟨hs, hb⟩, hbundles⟩ := hrun replayed rfl
  have hc := hcourse.collected
  have htargets : named.targets closure = [output] := by
    rw [targets, ho]
  have hmapped : replayer.substitutions.contains output = true :=
    hcourse.mapped output (by rw [htargets]; exact List.mem_cons_self)
  have hcached : ∀ id, replayer.substitutions.contains id = true → id ∉ named.oldInputs →
      cache.contains id = true := by
    intro id hid hn
    obtain ⟨target, htarget, hpath⟩ := hs.visited id hid hn
    rw [htargets, List.mem_singleton] at htarget
    subst htarget
    exact hc.contains_of_passes ho (hdepth' ▸ hdepth) hpath
  obtain ⟨new, hnew, hget⟩ := Replayer.exists_standIn? hs hb hcourse.paired hmapped hcourse.plan
  refine ⟨new, hnew, fun path input hchain hlast hinput => ?_⟩
  have hedge : final.contents.Edge = mid.contents.Edge := Contents.edge_congr hbundles
  rw [hedge] at hchain
  rw [hcourse.plan, ← hmemoize]
  exact Replayer.path_passes hs hb hc.mirrors hcourse.paired hcourse.named.oldInputs hcached path
    hget hchain hlast hinput

/-- What the diamond is replayed to rests on the fixed data. -/
theorem diamond_rests_on_new_inputs : ∃ replayed final,
    (diamond (some "eval")).replay.run (Store.handle Stock.strokes) Store.diamond =
      (.ok replayed, final) ∧ ∃ new,
        replayed.standIn? (diamond (some "eval")) "eval" = some new ∧ ∀ path input,
          (new :: path).IsChain final.contents.Edge → (new :: path).getLast? = some input →
          input ∈ ["raw"] → (∃ id ∈ new :: path, id ∈ ["fix"]) ∨
            false = true ∧ ∃ entry ∈ replayed.plan, entry.new.id = some input := by
  obtain ⟨replayed, hr⟩ := exists_replayed_diamond (.inr rfl)
  have hnamed : diamond (some "eval") = (diamond (some "eval")).inIds Store.diamond.contents := by
    decide
  have hordered : Store.diamond.contents.Ordered := by decide
  have hrun : (diamond (some "eval")).replay.run (Store.handle Stock.strokes) Store.diamond =
      (.ok replayed,
        ((diamond (some "eval")).replay.run (Store.handle Stock.strokes) Store.diamond).2) :=
    Prod.ext hr rfl
  have hdepth : ∀ ancestor, TransGen Store.diamond.contents.Edge "eval" ancestor →
      ∃ distance < 10, Climb Store.diamond.contents.Edge distance "eval" ancestor := by
    intro ancestor hpath
    obtain ⟨distance, _, hclimb, hle⟩ := hordered.exists_climb hpath
    have heval : Store.diamond.contents.ids.idxOf "eval" = 4 := by decide
    exact ⟨distance, by omega, hclimb⟩
  exact ⟨replayed, _, hrun, replay_rests_on_new_inputs Stock.strokes Store.diamond
    (diamond (some "eval")) (by decide) hordered.acyclic (Stock.fresh_strokes (by decide)) rfl
    hnamed rfl hdepth hrun⟩

end Request

/-! ### Taking over an old input -/

/-- A store in which one bundle is prepared from the second data the way another is from the
first. -/
def Store.twins : Store :=
  .ofBundles [.mounting .dataset "first" none [], .mounting .dataset "second" none [],
    .mounting .dataset "fix" none [], .mounting .run "prep" (some "prep") ["second"],
    .mounting .run "old" (some "prep") ["first"], .mounting .run "out" (some "train") ["old"]]

namespace Request

open Store

/-- A request that replaces the first data by the second, and what was prepared from the second. -/
def replaceTwin : Request :=
  { ofDefaults "w" .standard with
    oldInputs := ["first", "prep"]
    newInputs := ["second", "fix"]
    oldOutput := some "out"
    memoize := true }

/-- Without the exception for bundles that were taken over the statement is false: the old input
that was prepared from the second data is equivalent to what the other one becomes, so it is taken
over, and the new output rests on it directly. -/
theorem twins_rest_on_old_input :
    twins.contents.Identified ∧ twins.contents.Acyclic ∧ twins.stock.Fresh Stock.strokes ∧
      replaceTwin.dryRun = false ∧ replaceTwin = replaceTwin.inIds twins.contents ∧
      (∀ ancestor, TransGen twins.contents.Edge "out" ancestor →
        ∃ distance < replaceTwin.depth, Climb twins.contents.Edge distance "out" ancestor) ∧
      ∃ replayed final,
        replaceTwin.replay.run (Store.handle Stock.strokes) twins = (.ok replayed, final) ∧
        replayed.standIn? replaceTwin "out" = some "|" ∧
        ["|", "prep"].IsChain final.contents.Edge ∧ "prep" ∈ replaceTwin.oldInputs ∧
        ∀ id ∈ ["|", "prep"], id ∉ replaceTwin.newInputs := by
  have hordered : twins.contents.Ordered := by decide
  have hout : (replaceTwin.replay.run (Store.handle Stock.strokes) twins).1.toOption.bind
      (·.standIn? replaceTwin "out") = some "|" := by decide +kernel
  have hedge : (replaceTwin.replay.run (Store.handle Stock.strokes) twins).2.contents.bundles.any
      (fun bundle => bundle.id = some "|" ∧ "prep" ∈ bundle.parents) = true := by decide +kernel
  refine ⟨by decide, hordered.acyclic, Stock.fresh_strokes (by decide), rfl, by decide, ?_, ?_⟩
  · intro ancestor hpath
    obtain ⟨distance, _, hclimb, hle⟩ := hordered.exists_climb hpath
    have hindex : twins.contents.ids.idxOf "out" = 5 := by decide
    have hten : replaceTwin.depth = 10 := rfl
    exact ⟨distance, by omega, hclimb⟩
  · cases hr : replaceTwin.replay.run (Store.handle Stock.strokes) twins with
    | mk result final =>
        rw [hr] at hout hedge
        cases result with
        | error error => cases hout
        | ok replayed =>
            obtain ⟨bundle, hb, hparent⟩ := List.any_eq_true.mp hedge
            rw [decide_eq_true_eq] at hparent
            have hup : final.contents.Edge "|" "prep" := ⟨bundle, hb, hparent⟩
            exact ⟨replayed, final, rfl, hout, .cons_cons hup (.singleton _), by decide, by decide⟩

end Request

end Provenance
