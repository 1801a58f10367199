import Provenance.Proofs.Equivalents
import Provenance.Proofs.Replacement
import Provenance.Proofs.Resumption
import Provenance.Proofs.Spread

/-!
# How new bundles are woven into the graph

The ids that are `mentioned` in some contents are those of the bundles and of the parents that they
name.  Bundles that are stored since under other ids change no edge up from what was mentioned
(`Contents.Outgrows`), so what is above it, and how far, stays the same.

`Woven` is what walks keep of a replay that is no dry run: every id that stands in for something is
mentioned, the new bundle of an entry has what stands in for the parents of the old one as its
parents, and each bundle that was added is the new one of an entry.

* `Outgrows.climb_iff` and `Outgrows.level_iff`: distances up from what was mentioned.
* `Woven.resolve`: what resolving a bundle keeps.
* `Account.edge_iff`: the edges up from what stands in for a replaced bundle.
-/

namespace Provenance

open Dialogue Relation

/-! ### What is stored behind other bundles -/

namespace Contents

variable {contents after earlier : Contents} {id parent top : BundleId} {made : Bundle}

/-- The bundles that were stored since the contents were earlier ones. -/
def since (contents earlier : Contents) : List Bundle :=
  contents.bundles.drop earlier.bundles.length

theorem append_since (h : earlier.bundles <+: contents.bundles) :
    contents.bundles = earlier.bundles ++ contents.since earlier := by
  obtain ⟨rest, hrest⟩ := h
  rw [since, ← hrest, List.drop_left]

theorem since_eq_nil (h : contents.bundles = earlier.bundles) : contents.since earlier = [] := by
  rw [since, h, List.drop_length]

theorem since_concat (h : earlier.bundles <+: contents.bundles)
    (hb : after.bundles = contents.bundles ++ [made]) :
    after.since earlier = contents.since earlier ++ [made] := by
  rw [since, since, hb, List.drop_append_of_le_length h.length_le]

theorem since_congr (hb : after.bundles = contents.bundles) (earlier : Contents) :
    after.since earlier = contents.since earlier := by
  rw [since, since, hb]

theorem mentioned_subset (h : earlier.bundles <+: contents.bundles) (hid : id ∈ earlier.mentioned) :
    id ∈ contents.mentioned := by
  rcases List.mem_append.mp hid with hid | hid
  · obtain ⟨bundle, hb, hown⟩ := mem_ids.mp hid
    exact mentioned_of_mem_bundles (h.subset hb) hown
  · obtain ⟨bundle, hb, hp⟩ := List.mem_flatMap.mp hid
    exact mentioned_of_mem_parents (h.subset hb) hp

/-- Whatever was stored since is stored behind the earlier bundles, under an id that they do not
mention. -/
structure Outgrows (contents earlier : Contents) : Prop where
  grown : earlier.bundles <+: contents.bundles
  new : ∀ made ∈ contents.since earlier, ∀ id, made.id = some id → id ∉ earlier.mentioned

namespace Outgrows

theorem edge_iff (h : contents.Outgrows earlier) (hid : id ∈ earlier.mentioned) :
    contents.Edge id parent ↔ earlier.Edge id parent := by
  constructor
  · rintro ⟨bundle, hb, hown, hp⟩
    rw [append_since h.grown, List.mem_append] at hb
    rcases hb with hb | hb
    · exact ⟨bundle, hb, hown, hp⟩
    · exact absurd hid (h.new bundle hb id hown)
  · rintro ⟨bundle, hb, hown, hp⟩
    exact ⟨bundle, h.grown.subset hb, hown, hp⟩

/-- As many edges lead up from what was mentioned as before. -/
theorem climb_iff (h : contents.Outgrows earlier) {n : Nat} (hid : id ∈ earlier.mentioned) :
    Climb contents.Edge n id top ↔ Climb earlier.Edge n id top := by
  induction n generalizing id with
  | zero =>
      constructor
      · intro hclimb
        cases hclimb
        exact .here _
      · intro hclimb
        cases hclimb
        exact .here _
  | succ n ih =>
      constructor
      · intro hclimb
        obtain _ | ⟨he, hrest⟩ := hclimb
        have hedge := (h.edge_iff hid).mp he
        exact .up hedge ((ih (mentioned_of_edge hedge)).mp hrest)
      · intro hclimb
        obtain _ | ⟨he, hrest⟩ := hclimb
        exact .up ((h.edge_iff hid).mpr he) ((ih (mentioned_of_edge he)).mpr hrest)

theorem level_iff (h : contents.Outgrows earlier) {tops : List BundleId} {level : Nat}
    (hid : id ∈ earlier.mentioned) :
    contents.Level tops level id ↔ earlier.Level tops level id := by
  have hreached : ∀ n, (∃ top ∈ tops, Climb contents.Edge n id top) ↔
      ∃ top ∈ tops, Climb earlier.Edge n id top := by
    intro n
    simp only [h.climb_iff hid]
  rw [Level, Level, hreached]
  refine and_congr_right fun _ => forall₂_congr fun less _ => ?_
  rw [hreached]

theorem transGen (h : contents.Outgrows earlier) (hid : id ∈ earlier.mentioned)
    (hpath : TransGen contents.Edge id top) : TransGen earlier.Edge id top := by
  induction hpath using TransGen.head_induction_on with
  | single he => exact .single ((h.edge_iff hid).mp he)
  | head he _ ih =>
      have hedge := (h.edge_iff hid).mp he
      exact .head hedge (ih (mentioned_of_edge hedge))

end Outgrows

/-- No bundle that was stored since is equivalent to one that is stored before it. -/
def Novel (contents earlier : Contents) : Prop :=
  ∀ m n other made, m < n → earlier.bundles.length ≤ n → contents.bundles[m]? = some other →
    contents.bundles[n]? = some made → ¬ other.Equivalent made.command made.keys

namespace Novel

theorem refl (contents : Contents) : contents.Novel contents := by
  intro m n other made _ hn _ hmade
  rw [List.getElem?_eq_none hn] at hmade
  cases hmade

theorem append (h : contents.Novel earlier) (hb : after.bundles = contents.bundles ++ [made])
    (hn : ∀ other ∈ contents.bundles, ¬ other.Equivalent made.command made.keys) :
    after.Novel earlier := by
  intro m n other last hlt hle hother hlast
  rw [hb] at hother hlast
  rcases Nat.lt_trichotomy n contents.bundles.length with hn' | rfl | hn'
  · rw [List.getElem?_append_left (by omega)] at hother hlast
    exact h m n other last hlt hle hother hlast
  · rw [List.getElem?_append_left hlt] at hother
    rw [List.getElem?_concat_length, Option.some.injEq] at hlast
    exact hlast ▸ hn other (List.mem_of_getElem? hother)
  · rw [List.getElem?_eq_none (by rw [List.length_append, List.length_singleton]; omega)] at hlast
    cases hlast

theorem trans {mid : Contents} (h : contents.Novel mid) (h' : mid.Novel earlier)
    (hp : mid.bundles <+: contents.bundles) : contents.Novel earlier := by
  intro m n other made hlt hle hother hmade
  rcases Nat.lt_or_ge n mid.bundles.length with hn | hn
  · obtain ⟨rest, hrest⟩ := hp
    rw [← hrest, List.getElem?_append_left (by omega)] at hother hmade
    exact h' m n other made hlt hle hother hmade
  · exact h m n other made hlt hn hother hmade

theorem congr (h : contents.Novel earlier) (hb : after.bundles = contents.bundles) :
    after.Novel earlier := by
  intro m n
  rw [hb]
  exact h m n

end Novel

end Contents

/-! ### What walks keep -/

/-- A bundle was created to stand in for an old one, as a state has it: from the counterpart of the old
one, with what stands in for the parents of that, and under an id that was given out since some
stock. -/
def Bundle.CreatedFor (made old : Bundle) (replayer : Replayer) (supply : IdSupply)
    (request : Request) (origin : Stock) : Prop :=
  ∃ id number, old.id = some id ∧ replayer.substitutions.get? id = some made.id ∧
    origin.allocated ≤ number ∧ made = origin.contents.newBundle
      (old.counterpart id (replayer.standIns old.dependencies) request) (supply number)

namespace Replayer

variable {supply : IdSupply} {origin stock after : Stock} {request : Request} {cache : Cache}
  {replayer next : Replayer} {targets : List BundleId} {id current parent above new : BundleId}
  {old made : Bundle} {entry : PlanEntry}

theorem createdFor_of_add {target : Option BundleId}
    (h : made.CreatedFor old replayer supply request origin)
    (hs : next.substitutions = replayer.substitutions.add current target)
    (hparents : ∀ parent ∈ old.parents, replayer.substitutions.contains parent = true) :
    made.CreatedFor old next supply request origin := by
  obtain ⟨id, number, hid, hget, hnumber, hmade⟩ := h
  refine ⟨id, number, hid, ?_, hnumber, ?_⟩
  · rw [hs]
    exact Register.get?_add_of_some hget
  · rw [standIns_of_add hs hparents]
    exact hmade

/-- What holds of the graph and the mapping between two moves; `origin` is the stock at the
beginning. -/
structure Woven (supply : IdSupply) (request : Request) (origin : Stock) (replayer : Replayer)
    (stock : Stock) : Prop where
  grown : origin.contents.bundles <+: stock.contents.bundles
  counted : stock.allocated + origin.contents.bundles.length =
    origin.allocated + stock.contents.bundles.length
  ownerId : stock.contents.ownerId = origin.contents.ownerId
  avoids : supply.Avoids stock.allocated stock.contents.mentioned
  acyclic : stock.contents.Acyclic
  mapped : ∀ id new, replayer.substitutions.get? id = some (some new) →
    new ∈ stock.contents.mentioned
  closed : ∀ entry ∈ replayer.plan, ∀ parent ∈ entry.old.parents,
    replayer.substitutions.contains parent = true
  keys : ∀ entry ∈ replayer.plan, Contents.sortedKeys entry.new.keys =
    Contents.sortedKeys ((replayer.standIns entry.old.dependencies).map Dependency.key)
  added : ∀ made ∈ stock.contents.since origin.contents, ∃ entry ∈ replayer.plan,
    entry.new = made.explained ∧ made.CreatedFor entry.old replayer supply request origin

namespace Woven

theorem start (hn : request.Named origin.contents) (ha : origin.contents.Acyclic)
    (hs : supply.Avoids origin.allocated origin.contents.mentioned) :
    Woven supply request origin (start request) origin where
  grown := List.prefix_rfl
  counted := rfl
  ownerId := rfl
  avoids := hs
  acyclic := ha
  mapped id new hget := by
    rw [get?_start, Option.map_eq_some_iff] at hget
    obtain ⟨pair, hpair, hnew⟩ := hget
    cases hnew
    have hmem := (List.of_mem_zip (List.mem_of_find?_eq_some hpair)).2
    exact Contents.mentioned_of_mem_ids (hn.newInputs pair.2 hmem)
  closed := List.forall_mem_nil _
  keys := List.forall_mem_nil _
  added := by
    rw [Contents.since_eq_nil rfl]
    exact List.forall_mem_nil _

theorem map (h : Woven supply request origin replayer stock)
    (hc : current ∈ stock.contents.mentioned) :
    Woven supply request origin (replayer.map current (some current)) stock where
  grown := h.grown
  counted := h.counted
  ownerId := h.ownerId
  avoids := h.avoids
  acyclic := h.acyclic
  mapped id new hget := by
    rw [map_substitutions, Register.get?_add] at hget
    split at hget
    · cases hget
      exact hc
    · exact h.mapped id new hget
  closed entry he parent hp := (Register.contains_add ..).mpr (.inr (h.closed entry he parent hp))
  keys entry he := by
    rw [standIns_of_add (map_substitutions (some current)) (h.closed entry he)]
    exact h.keys entry he
  added made hmade := by
    obtain ⟨entry, he, hnew, hcreated⟩ := h.added made hmade
    exact ⟨entry, he, hnew,
      createdFor_of_add hcreated (map_substitutions (some current)) (h.closed entry he)⟩

theorem record (h : Woven supply request origin replayer stock)
    (hgrown : origin.contents.bundles <+: after.contents.bundles)
    (hcounted : after.allocated + origin.contents.bundles.length =
      origin.allocated + after.contents.bundles.length)
    (howner : after.contents.ownerId = stock.contents.ownerId)
    (havoids : supply.Avoids after.allocated after.contents.mentioned)
    (hacyclic : after.contents.Acyclic)
    (hsub : ∀ id ∈ stock.contents.mentioned, id ∈ after.contents.mentioned)
    (hmade : ∀ id, made.id = some id → id ∈ after.contents.mentioned)
    (hparents : ∀ parent ∈ old.parents, replayer.substitutions.contains parent = true)
    (hkeys : Contents.sortedKeys made.keys =
      Contents.sortedKeys (replayer.description request current old).keys)
    (hs : next.substitutions = replayer.substitutions.add current made.id)
    (hp : next.plan = replayer.plan ++ [⟨old, made⟩])
    (hadded : ∀ bundle ∈ after.contents.since origin.contents,
      bundle ∈ stock.contents.since origin.contents ∨
        (made = bundle.explained ∧ bundle.CreatedFor old next supply request origin)) :
    Woven supply request origin next after where
  grown := hgrown
  counted := hcounted
  ownerId := howner.trans h.ownerId
  avoids := havoids
  acyclic := hacyclic
  mapped id new hget := by
    rw [hs, Register.get?_add] at hget
    split at hget
    · exact hmade new (Option.some.inj hget)
    · exact hsub new (h.mapped id new hget)
  closed := by
    rw [hp, List.forall_mem_append, List.forall_mem_singleton]
    refine ⟨fun entry he parent hparent => ?_, fun parent hparent => ?_⟩
    · rw [hs, Register.contains_add]
      exact .inr (h.closed entry he parent hparent)
    · rw [hs, Register.contains_add]
      exact .inr (hparents parent hparent)
  keys := by
    rw [hp, List.forall_mem_append, List.forall_mem_singleton]
    refine ⟨fun entry he => ?_, ?_⟩
    · rw [standIns_of_add hs (h.closed entry he)]
      exact h.keys entry he
    · rw [standIns_of_add hs hparents]
      exact hkeys
  added bundle hb := by
    rw [hp]
    rcases hadded bundle hb with hb | hcreated
    · obtain ⟨entry, he, hnew, hcreated⟩ := h.added bundle hb
      exact ⟨entry, List.mem_append_left _ he, hnew,
        createdFor_of_add hcreated hs (h.closed entry he)⟩
    · exact ⟨_, List.mem_append_right _ List.mem_cons_self, hcreated⟩

/-- **Resolving a bundle** whose parents are mapped keeps what holds. -/
theorem resolve (h : Woven supply request origin replayer stock)
    (hb : Backed supply request origin.contents replayer stock) (hdry : request.dryRun = false)
    (hmapped : ¬ replayer.substitutions.contains current = true)
    (hc : current ∈ stock.contents.mentioned) (hold : old.id = some current)
    (hparents : ∀ parent ∈ old.parents, replayer.substitutions.contains parent = true)
    (hr : Resolution supply request replayer current old stock next after) :
    Woven supply request origin next after := by
  cases hr with
  | unaffected => exact h.map hc
  | planned _ hd =>
      rw [hdry] at hd
      cases hd
  | @reused existing _ _ _ hs =>
      have hkeys := Contents.sortedKeys_of_mem_searchBundles (List.mem_of_getLast? hs)
      obtain ⟨stored, hstored, _, rfl⟩ := Contents.exists_of_getLast?_searchBundles hs
      have hmade : ∀ id, stored.explained.id = some id → id ∈ stock.contents.mentioned :=
        fun id hid => Contents.mentioned_of_mem_bundles hstored hid
      exact h.record h.grown h.counted rfl h.avoids h.acyclic (fun _ hid => hid) hmade hparents hkeys
        rfl rfl fun _ hbundle => .inl hbundle
  | @created made _ _ _ _ _ hs =>
      have howner := hs.ownerId_eq
      obtain ⟨hmade, hbundles, hallocated⟩ := hs.createBundle
      have hkeys := keys_newBundle stock.contents (replayer.description request current old)
        (supply stock.allocated)
      -- the parents of the new bundle occur, so the next ids are none of them
      have hstandIns : ∀ parent ∈ (stock.contents.newBundle (replayer.description request current old)
          (supply stock.allocated)).parents, parent ∈ stock.contents.mentioned := by
        intro parent hparent
        have hmem : parent ∈ (replayer.standIns old.dependencies).map Dependency.parentId := by
          simpa [Bundle.parents, Contents.newBundle_dependencies, Function.comp_def] using hparent
        obtain ⟨above, _, hget⟩ := hb.exists_of_mem_standIns hparents hmem
        exact h.mapped above parent hget
      have hmentioned : ∀ id, id ∈ after.contents.mentioned ↔
          id ∈ stock.contents.mentioned ∨ id = supply stock.allocated := by
        intro id
        rw [Contents.mem_mentioned_append hbundles rfl]
        have := hstandIns id
        tauto
      have havoids : supply.Avoids after.allocated after.contents.mentioned := by
        rw [hallocated]
        exact h.avoids.next fun id => (hmentioned id).mp
      have hacyclic : after.contents.Acyclic := by
        refine h.acyclic.append hbundles rfl fun bundle hbundle hp => ?_
        refine h.avoids.new stock.allocated (Nat.le_refl _) ?_
        rw [hbundles, List.mem_append, List.mem_singleton] at hbundle
        rcases hbundle with hbundle | rfl
        · exact Contents.mentioned_of_mem_parents hbundle hp
        · exact hstandIns _ hp
      refine h.record ?_ ?_ howner havoids hacyclic (fun id hid => (hmentioned id).mpr (.inl hid)) ?_
        hparents ?_ rfl rfl ?_
      · rw [hbundles]
        exact h.grown.trans (List.prefix_append _ _)
      · have := h.counted
        rw [hallocated, hbundles, List.length_append, List.length_singleton]
        omega
      · intro id hid
        rw [hmade] at hid
        exact (hmentioned id).mpr (.inr (Option.some.inj hid).symm)
      · rw [hmade]
        exact congrArg Contents.sortedKeys hkeys
      · intro bundle hbundle
        rw [Contents.since_concat h.grown hbundles, List.mem_append, List.mem_singleton] at hbundle
        rcases hbundle with hbundle | rfl
        · exact .inl hbundle
        · have := h.counted
          have := h.grown.length_le
          refine .inr ⟨hmade, current, stock.allocated, hold, ?_, by omega, ?_⟩
          · rw [hmade]
            exact Register.get?_add_self _ hmapped
          · have hstable : ((replayer.record current old made).countCreated made).standIns
                old.dependencies = replayer.standIns old.dependencies := standIns_of_add rfl hparents
            rw [hstable]
            exact Contents.newBundle_congr h.ownerId _ _

end Woven

/-- A bundle is created only where none is equivalent. -/
theorem Resolution.novel {earlier : Contents} (hm : request.memoize = true)
    (hr : Resolution supply request replayer current old stock next after)
    (h : stock.contents.Novel earlier) : after.contents.Novel earlier := by
  cases hr with
  | unaffected => exact h
  | planned => exact h
  | reused => exact h
  | created _ _ hnone _ hs =>
      obtain ⟨_, hbundles, _⟩ := hs.createBundle
      refine h.append hbundles ?_
      rw [keys_newBundle]
      exact Contents.getLast?_searchBundles_eq_none_iff.mp (List.getLast?_eq_none_iff.mpr (hnone hm))

/-- What walks keep of a replay that is no dry run and takes equivalent bundles over. -/
structure Account (supply : IdSupply) (request : Request) (cache : Cache) (targets : List BundleId)
    (origin : Stock) (replayer : Replayer) (stock : Stock) : Prop where
  settled : Settled request cache targets replayer
  backed : Backed supply request origin.contents replayer stock
  woven : Woven supply request origin replayer stock
  current : replayer.Current stock.contents
  latest : ∀ plan, origin.contents.Latest plan → stock.contents.Latest plan
  novel : stock.contents.Novel origin.contents

namespace Account

theorem start (hn : request.Named origin.contents)
    (hp : request.pairs.map Prod.fst = request.oldInputs) (hi : origin.contents.Identified)
    (ha : origin.contents.Acyclic)
    (hs : supply.Avoids origin.allocated origin.contents.mentioned) (targets : List BundleId) :
    Account supply request cache targets origin (start request) origin where
  settled := .start hp targets
  backed := .start (.of_avoids hs fun _ => Contents.mentioned_of_mem_ids) hi
  woven := .start hn ha hs
  current := .start request origin.contents
  latest _ hlatest := hlatest
  novel := .refl origin.contents

theorem kept {closure : List BundleId} (hn : request.Named origin.contents)
    (hp : request.pairs.map Prod.fst = request.oldInputs) (ha : origin.contents.Acyclic)
    (hd : request.dryRun = false) (hm : request.memoize = true)
    (hc : request.Collected origin.contents cache closure) :
    Kept supply request cache (Replayer.start request) (request.targets closure)
      (Account supply request cache (request.targets closure) origin) := by
  have hacyclic := hc.mirrors.acyclic ha
  have hkept : Kept supply request cache (Replayer.start request) (request.targets closure)
      fun replayer stock => (Settled request cache (request.targets closure) replayer ∧
        Backed supply request origin.contents replayer stock) ∧ replayer.Current stock.contents :=
    ((kept_settled hacyclic hc.mirrors.keyed hp (request.eq_of_mem_targets closure)).and
      (kept_backed hacyclic hd _ _)).and (Current.kept hd hm cache _ _)
  have hmentioned : ∀ {stock : Stock} {current : BundleId},
      origin.contents.bundles <+: stock.contents.bundles →
      (Replayer.start request).Visits cache (request.targets closure) current →
      current ∈ stock.contents.mentioned := fun hgrown hv => Contents.mentioned_subset hgrown
    (mem_mentioned_of_visits hc.mirrors (Request.mem_mentioned_of_mem_targets hn hc) hv)
  refine ⟨fun h hmapped hv ho => ?_, fun h hmapped hv ho hparents hr => ?_⟩
  · obtain ⟨⟨hsettled, hbacked⟩, hcurrent⟩ :=
      hkept.keep ⟨⟨h.settled, h.backed⟩, h.current⟩ hmapped hv ho
    exact ⟨hsettled, hbacked, h.woven.map (hmentioned h.woven.grown hv), hcurrent, h.latest, h.novel⟩
  · obtain ⟨⟨hsettled, hbacked⟩, hcurrent⟩ :=
      hkept.resolve ⟨⟨h.settled, h.backed⟩, h.current⟩ hmapped hv ho hparents hr
    have hwoven := h.woven.resolve h.backed hd hmapped (hmentioned h.woven.grown hv)
      (hc.mirrors.keyed _ _ ho) (contains_parents hacyclic ho hparents) hr
    exact ⟨hsettled, hbacked, hwoven, hcurrent,
      fun plan hlatest => hr.keeps_latest hm (h.latest plan hlatest), hr.novel hm h.novel⟩

variable (h : Account supply request cache targets origin replayer stock)

include h

/-- What was created is stored under ids that were not mentioned before. -/
theorem outgrows (hs : supply.Avoids origin.allocated origin.contents.mentioned) :
    stock.contents.Outgrows origin.contents := by
  refine ⟨h.woven.grown, fun made hmade id hid => ?_⟩
  obtain ⟨_, _, _, _, number, _, _, hnumber, rfl⟩ := h.woven.added made hmade
  rw [Contents.newBundle_id, Option.some.injEq] at hid
  exact hid ▸ hs.new number hnumber

theorem exists_new (he : entry ∈ replayer.plan) : ∃ id new, entry.old.id = some id ∧
    cache.get? id = some entry.old ∧ id ∉ request.oldInputs ∧ entry.new.id = some new ∧
    replayer.substitutions.get? id = some (some new) ∧
    ∃ stored ∈ stock.contents.bundles, stored.id = some new ∧ entry.new = stored.explained := by
  obtain ⟨id, hid, hcache, hget, hinput, _⟩ := h.settled.planned entry he
  obtain ⟨new, hnew, _⟩ := h.backed.entries entry he
  obtain ⟨stored, hstored, _, hexplained⟩ :=
    Contents.exists_of_getLast?_searchBundles (h.current.latest entry he)
  have hown : stored.id = some new := by
    rw [← hnew, hexplained]
    rfl
  exact ⟨id, new, hid, hcache, hinput, hnew, hnew ▸ hget, stored, hstored, hown, hexplained⟩

theorem get?_old (he : entry ∈ replayer.plan) (hid : entry.old.id = some id) :
    cache.get? id = some entry.old := by
  obtain ⟨_, _, hown, hcache, _⟩ := h.exists_new he
  obtain rfl := Option.some.inj (hid.symm.trans hown)
  exact hcache

theorem exists_get? (hc : replayer.substitutions.contains id = true) :
    ∃ new, replayer.substitutions.get? id = some (some new) := by
  obtain ⟨target, ht⟩ := Option.isSome_iff_exists.mp hc
  obtain ⟨new, rfl⟩ := Option.isSome_iff_exists.mp (h.backed.target id target ht)
  exact ⟨new, ht⟩

theorem get?_of_start (id : BundleId) (target : Option BundleId)
    (hget : (Replayer.start request).substitutions.get? id = some target) :
    replayer.substitutions.get? id = some target := by
  rw [get?_start, Option.map_eq_some_iff] at hget
  obtain ⟨pair, hpair, rfl⟩ := hget
  exact h.backed.paired id pair hpair

theorem standIn_eq_iff (hc : replayer.substitutions.contains id = true) :
    replayer.standIn id = new ↔ replayer.substitutions.get? id = some (some new) := by
  obtain ⟨found, hfound⟩ := h.exists_get? hc
  rw [standIn_of_get? hfound, hfound, Option.some.injEq, Option.some.injEq]

/-- The parents of a new bundle are what stands in for the parents of the old one. -/
theorem parents_perm (he : entry ∈ replayer.plan) :
    entry.new.parents.Perm (entry.old.parents.map replayer.standIn) := by
  have hkeys := Contents.sortedKeys_eq_iff.mp (h.woven.keys entry he)
  have hparents := hkeys.map DependencyKey.parentId
  simp only [Bundle.keys, standIns, List.map_map] at hparents
  simp only [Bundle.parents, List.map_map]
  exact hparents

/-- **The edges up from a new bundle** lead to what stands in for the parents of the old one. -/
theorem edge_iff (he : entry ∈ replayer.plan) (hnew : entry.new.id = some new) :
    stock.contents.Edge new parent ↔
      ∃ above ∈ entry.old.parents, replayer.substitutions.get? above = some (some parent) := by
  obtain ⟨_, other, _, _, _, hother, _, stored, hstored, hown, hexplained⟩ := h.exists_new he
  obtain rfl : new = other := Option.some.inj (hnew.symm.trans hother)
  have hsame : stored.parents = entry.new.parents := by
    rw [hexplained]
    rfl
  rw [h.backed.identified.edge_iff hstored hown, hsame, (h.parents_perm he).mem_iff, List.mem_map]
  refine exists_congr fun above => and_congr_right fun habove => ?_
  exact h.standIn_eq_iff (h.woven.closed entry he above habove)

/-- An edge that walks go up from a replaced bundle is one up from what stands in for it. -/
theorem edge_of_passes (hid : id ∈ replayer.plan.oldIds) (hstep : request.Passes cache id above)
    (hget : replayer.substitutions.get? id = some (some new))
    (habove : replayer.substitutions.get? above = some (some parent)) :
    stock.contents.Edge new parent := by
  obtain ⟨entry, he, _, hcache, hentry, _⟩ := h.settled.exists_entry hid
  obtain ⟨_, old, ho, hp⟩ := hstep
  obtain rfl : entry.old = old := Option.some.inj (hcache.symm.trans ho)
  have hnew : entry.new.id = some new := by
    rw [hget] at hentry
    exact (Option.some.inj hentry).symm
  exact (h.edge_iff he hnew).mpr ⟨above, hp, habove⟩

theorem congr (hb : after.contents.bundles = stock.contents.bundles)
    (ho : after.contents.ownerId = stock.contents.ownerId)
    (ha : after.allocated = stock.allocated) :
    Account supply request cache targets origin replayer after := by
  obtain ⟨⟨owner, bundles, worksheets⟩, allocated⟩ := stock
  obtain ⟨⟨owner', bundles', worksheets'⟩, allocated'⟩ := after
  obtain rfl : bundles' = bundles := hb
  obtain rfl : owner' = owner := ho
  obtain rfl : allocated' = allocated := ha
  obtain ⟨hsettled, hbacked, hwoven, hcurrent, hlatest, hnovel⟩ := h
  refine ⟨hsettled, ?_, ?_, ⟨hcurrent.created, hcurrent.latest⟩, hlatest, hnovel⟩
  · exact ⟨⟨hbacked.fresh.new, hbacked.fresh.distinct⟩,
      ⟨hbacked.identified.isSome, hbacked.identified.nodup⟩, hbacked.kept, hbacked.paired,
      hbacked.target, hbacked.entries⟩
  · exact ⟨hwoven.grown, hwoven.counted, hwoven.ownerId, ⟨hwoven.avoids.new, hwoven.avoids.distinct⟩,
      hwoven.acyclic, hwoven.mapped, hwoven.closed, hwoven.keys, hwoven.added⟩

end Account

end Replayer

/-! ### Runs -/

namespace Request

open Reporting

variable {request : Request} {supply : IdSupply}

/-- A replay that succeeds leaves a stock that its walks account for. -/
theorem replay_accounts (schedule : List (Nat × StoreError)) (recorded : Recorded)
    (hi : recorded.store.contents.Identified) (ha : recorded.store.contents.Acyclic)
    (hs : supply.Avoids recorded.store.allocated recorded.store.contents.mentioned)
    (hn : request.Named recorded.store.contents) (hm : request.memoize = true)
    (hd : request.dryRun = false) {replayed : Replayed}
    (hr : (request.replay.run (Recorded.handle supply schedule) recorded).1 = .ok replayed) :
    let final := (request.replay.run (Recorded.handle supply schedule) recorded).2.stock
    ∃ cache closure replayer,
      request.Course recorded.store.contents cache closure replayer replayed ∧
      Replayer.Account supply request cache (request.targets closure) recorded.stock replayer
        final := by
  intro final
  have hensures : request.replay.Ensures supply recorded.stock _ :=
    replay_ensures request
      (fun cache closure =>
        Replayer.Account supply request cache (request.targets closure) recorded.stock)
      hi (inIds_of_named hn).symm fun cache closure hn hp hc =>
        ⟨.start hn hp hi ha hs _, Replayer.Account.kept hn hp ha hd hm hc⟩
  obtain ⟨cache, closure, replayer, mid, hcourse, haccount, hbundles⟩ :=
    hensures.run (Recorded.handle_serves supply schedule) replayed hr
  -- the calls of a run that succeeds say how many ids were given out
  obtain ⟨events, hleads, _⟩ := Recorded.exists_leads supply schedule request.replay recorded
  have hnone : failure? (request.replay.run (Recorded.handle supply schedule) recorded).1 =
      none := by
    rw [hr]
    rfl
  obtain ⟨hallocated, hadded⟩ := hleads.grows ((replay_orderly request).of_leads hleads |>.2.2 hnone)
  have howner : final.contents.ownerId = recorded.store.contents.ownerId :=
    hleads.extends_contents.ownerId
  have hlength : mid.contents.bundles.length = recorded.store.contents.bundles.length +
      (events.filterMap fun event => event.call.description?).length := by
    rw [← hbundles, hadded, List.length_append, List.length_mapIdx]
    rfl
  have hcounted := haccount.woven.counted
  refine ⟨cache, closure, replayer, hcourse, haccount.congr hbundles ?_ ?_⟩
  · exact howner.trans haccount.woven.ownerId.symm
  · refine hallocated.trans ?_
    simp only [Recorded.stock, Store.stock] at hcounted ⊢
    omega

/-- However a replay ends, its walks account for the bundles that it leaves, and have made its plan if it
succeeds; or it has failed and left the bundles alone. -/
theorem replay_leaves_account (schedule : List (Nat × StoreError)) (recorded : Recorded)
    (hi : recorded.store.contents.Identified) (ha : recorded.store.contents.Acyclic)
    (hs : supply.Avoids recorded.store.allocated recorded.store.contents.mentioned)
    (hn : request.Named recorded.store.contents) (hm : request.memoize = true)
    (hd : request.dryRun = false) :
    let run := request.replay.run (Recorded.handle supply schedule) recorded
    (∃ cache closure replayer mid, request.Collected recorded.store.contents cache closure ∧
      Replayer.Account supply request cache (request.targets closure) recorded.stock replayer mid ∧
      run.2.store.contents.bundles = mid.contents.bundles ∧
      ∀ replayed, run.1 = .ok replayed → replayed.plan = replayer.plan) ∨
    (∃ error, run.1 = .error error) ∧
      run.2.store.contents.bundles = recorded.store.contents.bundles := by
  intro run
  cases hr : run.1 with
  | ok replayed =>
      obtain ⟨cache, closure, replayer, hcourse, haccount⟩ :=
        replay_accounts schedule recorded hi ha hs hn hm hd hr
      refine .inl ⟨cache, closure, replayer, _, hcourse.collected, haccount, rfl, ?_⟩
      rintro _ ⟨⟩
      exact hcourse.plan
  | error error =>
      have hensures : request.replay.Ensures supply recorded.stock _ :=
        replay_leaves request
          (fun cache closure =>
            Replayer.Account supply request cache (request.targets closure) recorded.stock)
          hi (inIds_of_named hn).symm fun cache closure hn hp hc =>
            ⟨.start hn hp hi ha hs _, Replayer.Account.kept hn hp ha hd hm hc⟩
      obtain ⟨mid, rfl | ⟨cache, closure, replayer, hcollected, haccount⟩, hbundles⟩ :=
        hensures.run (Recorded.handle_serves supply schedule)
      · exact .inr ⟨⟨error, rfl⟩, hbundles⟩
      · refine .inl ⟨cache, closure, replayer, mid, hcollected, haccount, hbundles, fun _ hok => ?_⟩
        cases hok

end Request

end Provenance
