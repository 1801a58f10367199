import Mathlib.Data.Set.Function
import Provenance.Proofs.Yield

/-!
# The order of asking

On a graph without cycles it does not matter in which order and how often it is asked what stands in
for some bundles.  Which bundles are replaced depends on the graph alone, so two series of walks differ
in the ids only that were given out for these, and `Replayer.exchange` takes those of the one to those
of the other.

* `Twins.rows_perm`: the same bundles are replaced.
* `Twins.get?_eq`: what stands in for a bundle is the same, but for the ids that were given out.
* `Replayer.substituteAll_reorders`: so are the plans and what is stored, and one series of walks
  succeeds if the other does.
-/

namespace Provenance

open Dialogue

/-! ### Other ids -/

theorem Stock.nodup_given {supply : IdSupply} {before : Stock} {known : List BundleId}
    (h : supply.Avoids before.allocated known) (after : Stock) :
    (before.given supply after).Nodup := by
  refine List.Nodup.map_on ?_ List.nodup_range'
  intro m hm n hn he
  rw [List.mem_range'_1] at hm hn
  exact h.distinct m n hm.1 hn.1 he

/-- The bundle with other ids in place of its own and of those in its dependencies. -/
def Bundle.rename (exchange : BundleId → BundleId) (bundle : Bundle) : Bundle :=
  { bundle with
    id := bundle.id.map exchange
    dependencies := bundle.dependencies.map fun dependency =>
      { dependency with
        parentId := exchange dependency.parentId
        childId := exchange dependency.childId } }

/-- The entry with other ids in its new bundle. -/
def PlanEntry.rename (exchange : BundleId → BundleId) (entry : PlanEntry) : PlanEntry :=
  ⟨entry.old, entry.new.rename exchange⟩

theorem Bundle.rename_of_eq_id {exchange : BundleId → BundleId} (h : ∀ id, exchange id = id)
    (bundle : Bundle) : bundle.rename exchange = bundle := by
  obtain rfl : exchange = fun id => id := funext h
  simp [rename]

namespace Replayer

variable {supply supply' : IdSupply} {origin stock stock' after : Stock} {request : Request}
  {cache : Cache} {first second next : Replayer} {ids ids' : List BundleId} {id : BundleId}
  {row : BundleId × Bundle} {rows rows' : List (BundleId × Bundle)}

/-! ### The end of a series of walks -/

/-- Walks for some ids have come to their end. -/
structure Ended (supply : IdSupply) (request : Request) (cache : Cache) (origin : Stock)
    (ids : List BundleId) (rows : List (BundleId × Bundle)) (replayer : Replayer) (stock : Stock) :
    Prop where
  spread : Spread request cache ids replayer
  yields : Yields supply request cache origin rows replayer stock
  mapped : ∀ id ∈ ids, replayer.substitutions.contains id = true

/-- What was planned and created when walks end, also when they fail. -/
theorem run_substituteAll_yields (ha : cache.Acyclic) (hm : request.memoize = false)
    (hshadow : request.shadow = false) {result : Except ReplayError Unit}
    (hr : ((start request).substituteAll request cache ids).run (Stock.handle supply) stock =
      ((result, next), after)) :
    Spread request cache ids next ∧ (∃ rows, Yields supply request cache stock rows next after) ∧
      (result = .ok () → ∀ id ∈ ids, next.substitutions.contains id = true) := by
  have hensures : ((start request).substituteAll request cache ids).Ensures supply stock _ :=
    substituteAll_ensures (fun _ hid => hid) (Yields.kept supply ha hm hshadow stock ids)
      ⟨.start request cache ids, [], .start supply request cache stock⟩
  obtain ⟨⟨hspread, hyields⟩, _, hmapped⟩ := hensures.of_run hr
  exact ⟨hspread, hyields, hmapped⟩

theorem exists_get?_start (h : (start request).substitutions.contains id = true) :
    ∃ new ∈ request.newInputs, (start request).substitutions.get? id = some (some new) := by
  obtain ⟨found, hfound⟩ := Option.isSome_iff_exists.mp h
  rw [get?_start] at hfound ⊢
  obtain ⟨pair, hpair, rfl⟩ := Option.map_eq_some_iff.mp hfound
  exact ⟨pair.2, (List.of_mem_zip (List.mem_of_find?_eq_some hpair)).2, hfound⟩

theorem get?_eq_newId? (hc : first.substitutions.contains id = true) :
    first.substitutions.get? id = some (first.newId? id) := by
  obtain ⟨found, hfound⟩ := Option.isSome_iff_exists.mp hc
  rw [newId?, hfound]
  rfl

namespace Ended

theorem contains_iff (h : Ended supply request cache origin ids rows first stock) :
    first.substitutions.contains id = true ↔
      (Replayer.start request).substitutions.contains id = true ∨
        (Replayer.start request).Visits cache ids id :=
  h.spread.contains_iff h.mapped

/-- **Which bundles are replaced**: those that the walks come to and that a replacement reaches. -/
theorem mem_rows_iff (h : Ended supply request cache origin ids rows first stock) :
    row ∈ rows ↔ cache.get? row.1 = some row.2 ∧ first.substitutions.contains row.1 = true ∧
      ¬ (Replayer.start request).substitutions.contains row.1 = true ∧
      request.Reaches cache row.1 := by
  have hdown : ∀ id, id ∈ first.downstream ↔
      id ∈ rows.map Prod.fst ∨ (Replayer.start request).substitutions.contains id = true := by
    intro id
    rw [h.yields.downstream, List.mem_append, List.mem_reverse, contains_start]
    rfl
  constructor
  · intro hrow
    obtain ⟨ho, hc, hn⟩ := h.yields.replaced row hrow
    have hmem : row.1 ∈ first.downstream := (hdown row.1).mpr (.inl (List.mem_map_of_mem hrow))
    exact ⟨ho, hc, hn, (h.spread.reached row.1 hmem).1⟩
  · rintro ⟨ho, hc, hn, hreaches⟩
    have hmem : row.1 ∈ first.downstream := h.spread.mem_downstream_iff.mpr ⟨hreaches, hc⟩
    obtain ⟨other, hother, hid⟩ := List.mem_map.mp (((hdown row.1).mp hmem).resolve_right hn)
    have hcached := (h.yields.replaced other hother).1
    rw [hid, ho] at hcached
    obtain rfl : other = row := Prod.ext hid (Option.some.inj hcached).symm
    exact hother

/-- What is mapped is an old input, or it is replaced, or it stands in for itself. -/
theorem cases (h : Ended supply request cache origin ids rows first stock)
    (hc : first.substitutions.contains id = true) :
    (Replayer.start request).substitutions.contains id = true ∨ (∃ row ∈ rows, row.1 = id) ∨
      ¬ request.Reaches cache id ∧ first.substitutions.get? id = some (some id) ∧
        (id ∈ ids ∨ id ∈ cache.parents) := by
  by_cases hstart : (Replayer.start request).substitutions.contains id = true
  · exact .inl hstart
  refine .inr ?_
  by_cases hdown : id ∈ first.downstream
  · rw [h.yields.downstream, List.mem_append, List.mem_reverse, List.mem_map] at hdown
    exact .inl (hdown.resolve_right fun hmem => hstart (contains_start.mpr hmem))
  · refine .inr ⟨fun hreaches => ?_, (h.spread.untouched id hc hdown).1, ?_⟩
    · exact hdown (h.spread.mem_downstream_iff.mpr ⟨hreaches, hc⟩)
    · exact ((h.spread.visited id hc).resolve_left hstart).mem

theorem newId?_ne_none (h : Ended supply request cache origin ids rows first stock)
    (hd : request.dryRun = false) (hc : first.substitutions.contains id = true) :
    first.newId? id ≠ none := by
  rcases h.cases hc with hstart | ⟨row, hrow, rfl⟩ | ⟨_, hself, _⟩
  · obtain ⟨new, _, hnew⟩ := exists_get?_start hstart
    simp [newId?, h.spread.started id hstart, hnew]
  · exact Option.isSome_iff_ne_none.mp (h.yields.made hd row hrow).1
  · simp [newId?, hself]

end Ended

/-! ### Two series of walks -/

theorem eq_of_nodup_filterMap {α β : Type} {f : α → Option β} {sources : List α} {a b : α} {value : β}
    (hd : (sources.filterMap f).Nodup) (ha : a ∈ sources) (hb : b ∈ sources)
    (hfa : f a = some value) (hfb : f b = some value) : a = b := by
  by_contra hne
  have hsymm : Std.Symm fun a b : α => ∀ x, f a = some x → ∀ y, f b = some y → x ≠ y :=
    ⟨fun _ _ hdiffer x hx y hy he => hdiffer y hy x hx he.symm⟩
  exact (List.pairwise_filterMap.mp hd).forall ha hb hne value hfa value hfb rfl

/-- What stands in, in another state, for the bundle that an id was given out for. -/
def exchange (rows : List (BundleId × Bundle)) (first second : Replayer) (id : BundleId) :
    BundleId :=
  match rows.find? fun row => first.newId? row.1 = some id with
  | some row => (second.newId? row.1).getD id
  | none => id

theorem exchange_of_not_mem (h : id ∉ rows.filterMap fun row => first.newId? row.1) :
    exchange rows first second id = id := by
  have hnone : rows.find? (fun row => first.newId? row.1 = some id) = none := by
    rw [List.find?_eq_none]
    intro row hrow hnew
    exact h (List.mem_filterMap.mpr ⟨row, hrow, of_decide_eq_true hnew⟩)
  rw [exchange, hnone]

theorem exchange_of_mem (hd : (rows.filterMap fun row => first.newId? row.1).Nodup)
    (hrow : row ∈ rows) (hnew : first.newId? row.1 = some id) :
    exchange rows first second id = (second.newId? row.1).getD id := by
  obtain ⟨found, hfound⟩ : ∃ found,
      rows.find? (fun row => first.newId? row.1 = some id) = some found :=
    Option.isSome_iff_exists.mp (List.find?_isSome.mpr ⟨row, hrow, decide_eq_true hnew⟩)
  have hid : first.newId? found.1 = some id := by simpa using List.find?_some hfound
  obtain rfl := eq_of_nodup_filterMap hd (List.mem_of_find?_eq_some hfound) hrow hid hnew
  rw [exchange, hfound]

/-- If other ids stand for the parents, the stored bundle is the same but for the ids. -/
theorem newBundle_rename {exchange : BundleId → BundleId} {old : Bundle} (contents : Contents)
    (h : ∀ parent ∈ old.parents, second.standIn parent = exchange (first.standIn parent))
    (new : BundleId) : contents.newBundle (second.description request id old) (exchange new) =
      (contents.newBundle (first.description request id old) new).rename exchange := by
  have hstand : second.standIns old.dependencies = (first.standIns old.dependencies).map
      fun dependency => { dependency with parentId := exchange dependency.parentId } := by
    rw [standIns, standIns, List.map_map]
    refine List.map_congr_left fun dependency hd => ?_
    rw [h dependency.parentId (List.mem_map_of_mem hd)]
    rfl
  simp [Contents.newBundle, Bundle.withId, Bundle.rename, description, Bundle.counterpart, hstand]

/-- Two series of walks on the same store, for the same bundles. -/
structure Twins (supply supply' : IdSupply) (request : Request) (cache : Cache) (origin : Stock)
    (ids : List BundleId) (rows rows' : List (BundleId × Bundle)) (first second : Replayer)
    (stock stock' : Stock) : Prop where
  ended : Ended supply request cache origin ids rows first stock
  ended' : Ended supply' request cache origin ids rows' second stock'
  avoids : supply.Avoids origin.allocated (request.newInputs ++ ids ++ cache.parents)
  avoids' : supply'.Avoids origin.allocated (request.newInputs ++ ids ++ cache.parents)

namespace Twins

variable (h : Twins supply supply' request cache origin ids rows rows' first second stock stock')

include h

theorem contains_iff :
    second.substitutions.contains id = true ↔ first.substitutions.contains id = true := by
  rw [h.ended.contains_iff, h.ended'.contains_iff]

theorem rows_perm : rows'.Perm rows := by
  refine (List.perm_ext_iff_of_nodup h.ended'.yields.nodup.of_map h.ended.yields.nodup.of_map).mpr ?_
  intro row
  rw [h.ended.mem_rows_iff, h.ended'.mem_rows_iff, h.contains_iff]

theorem nodup_newIds : (rows.filterMap fun row => first.newId? row.1).Nodup := by
  rw [← h.ended.yields.created, h.ended.yields.supplied]
  exact Stock.nodup_given h.avoids stock

theorem exchange_of_not_given (hid : id ∉ origin.given supply stock) :
    exchange rows first second id = id := by
  refine exchange_of_not_mem ?_
  rw [← h.ended.yields.created, h.ended.yields.supplied]
  exact hid

theorem exchange_of_known (hid : id ∈ request.newInputs ++ ids ++ cache.parents) :
    exchange rows first second id = id := by
  refine h.exchange_of_not_given fun hgiven => ?_
  obtain ⟨n, hn, _, rfl⟩ := Stock.mem_given.mp hgiven
  exact h.avoids.new n hn hid

theorem exchange_of_dryRun (hd : request.dryRun = true) (id : BundleId) :
    exchange rows first second id = id := by
  refine exchange_of_not_mem fun hmem => ?_
  obtain ⟨row, hrow, hnew⟩ := List.mem_filterMap.mp hmem
  rw [h.ended.yields.planned hd row hrow] at hnew
  cases hnew

theorem newId?_eq (hrow : row ∈ rows) :
    second.newId? row.1 = (first.newId? row.1).map (exchange rows first second) := by
  have hrow' : row ∈ rows' := h.rows_perm.mem_iff.mpr hrow
  cases hd : request.dryRun with
  | true => rw [h.ended.yields.planned hd row hrow, h.ended'.yields.planned hd row hrow', Option.map_none]
  | false =>
      obtain ⟨new, hnew⟩ := Option.isSome_iff_exists.mp (h.ended.yields.made hd row hrow).1
      obtain ⟨new', hnew'⟩ := Option.isSome_iff_exists.mp (h.ended'.yields.made hd row hrow').1
      rw [hnew, hnew', Option.map_some, exchange_of_mem h.nodup_newIds hrow hnew, hnew',
        Option.getD_some]

/-- **What stands in for a bundle** is the same in both series, but for the ids that were given out. -/
theorem get?_eq (id : BundleId) : second.substitutions.get? id =
    (first.substitutions.get? id).map (Option.map (exchange rows first second)) := by
  by_cases hc : first.substitutions.contains id = true
  · have hc' := h.contains_iff.mpr hc
    rcases h.ended.cases hc with hstart | ⟨row, hrow, rfl⟩ | ⟨hreaches, hself, hknown⟩
    · obtain ⟨new, hnew, hget⟩ := exists_get?_start hstart
      have hknown : new ∈ request.newInputs ++ ids ++ cache.parents := by simp [hnew]
      rw [h.ended.spread.started id hstart, h.ended'.spread.started id hstart, hget,
        Option.map_some, Option.map_some, h.exchange_of_known hknown]
    · rw [get?_eq_newId? hc, get?_eq_newId? hc', h.newId?_eq hrow, Option.map_some]
    · have hself' : second.substitutions.get? id = some (some id) := by
        refine (h.ended'.spread.untouched id hc' fun hdown => hreaches ?_).1
        exact (h.ended'.spread.reached id hdown).1
      have hmem : id ∈ request.newInputs ++ ids ++ cache.parents := by
        rw [List.append_assoc]
        exact List.mem_append_right _ (List.mem_append.mpr hknown)
      rw [hself, hself', Option.map_some, Option.map_some, h.exchange_of_known hmem]
  · have hc' := (not_congr h.contains_iff).mpr hc
    have hnone : first.substitutions.get? id = none := by simpa [Register.contains] using hc
    have hnone' : second.substitutions.get? id = none := by simpa [Register.contains] using hc'
    rw [hnone, hnone', Option.map_none]

/-- What stands for a mapped parent in a new description is exchanged too. -/
theorem standIn_eq (hc : first.substitutions.contains id = true) :
    second.standIn id = exchange rows first second (first.standIn id) := by
  rw [standIn, standIn, h.get?_eq id, get?_eq_newId? hc]
  cases hnew : first.newId? id with
  | some new => rfl
  | none =>
      -- only a dry run leaves placeholders, and it gives no ids out
      have hd : request.dryRun = true := by
        by_contra hreal
        exact absurd hnew (h.ended.newId?_ne_none (by simpa using hreal) hc)
      exact (h.exchange_of_dryRun hd "").symm

theorem stored?_eq (hrow : row ∈ rows) (contents : Contents) :
    second.stored? request contents row =
      (first.stored? request contents row).map (Bundle.rename (exchange rows first second)) := by
  rw [stored?, stored?, h.newId?_eq hrow, Option.map_map, Option.map_map]
  have hparents := h.ended.yields.parents h.ended.spread hrow
  exact congrArg (Option.map · _) (funext fun new =>
    newBundle_rename contents (fun parent hp => h.standIn_eq (hparents parent hp)) new)

theorem entry_eq (hrow : row ∈ rows) (contents : Contents) :
    second.entry request contents row =
      (first.entry request contents row).rename (exchange rows first second) := by
  rw [entry, entry, PlanEntry.rename, h.stored?_eq hrow]
  cases hd : request.dryRun with
  | true =>
      have hparents := h.ended.yields.parents h.ended.spread hrow
      have hsame : second.description request row.1 row.2 = first.description request row.1 row.2 :=
        description_congr fun parent hp =>
          (h.standIn_eq (hparents parent hp)).trans (h.exchange_of_dryRun hd _)
      rw [stored?, h.ended.yields.planned hd row hrow, hsame]
      exact congrArg (PlanEntry.mk row.2)
        (Bundle.rename_of_eq_id (h.exchange_of_dryRun hd) _).symm
  | false =>
      obtain ⟨new, hnew⟩ := Option.isSome_iff_exists.mp (h.ended.yields.made hd row hrow).1
      rw [stored?, hnew]
      rfl

theorem plan_perm : second.plan.Perm (first.plan.map (PlanEntry.rename (exchange rows first second))) := by
  have hentries : rows.map (second.entry request origin.contents) =
      (rows.map (first.entry request origin.contents)).map
        (PlanEntry.rename (exchange rows first second)) := by
    rw [List.map_map]
    exact List.map_congr_left fun row hrow => h.entry_eq hrow _
  rw [h.ended.yields.plan, h.ended'.yields.plan, ← hentries]
  exact h.rows_perm.map _

theorem stored_perm :
    (rows'.filterMap (second.stored? request origin.contents)).Perm
      ((rows.filterMap (first.stored? request origin.contents)).map
        (Bundle.rename (exchange rows first second))) := by
  have hstored : rows.filterMap (second.stored? request origin.contents) =
      (rows.filterMap (first.stored? request origin.contents)).map
        (Bundle.rename (exchange rows first second)) := by
    rw [List.map_filterMap]
    exact List.filterMap_congr fun row hrow => h.stored?_eq hrow _
  rw [← hstored]
  exact h.rows_perm.filterMap _

theorem given_perm : (origin.given supply' stock').Perm
    ((origin.given supply stock).map (exchange rows first second)) := by
  have hnew : rows.filterMap (fun row => second.newId? row.1) =
      (rows.filterMap fun row => first.newId? row.1).map (exchange rows first second) := by
    rw [List.map_filterMap]
    exact List.filterMap_congr fun row hrow => h.newId?_eq hrow
  rw [← h.ended.yields.supplied, ← h.ended'.yields.supplied, h.ended.yields.created,
    h.ended'.yields.created, ← hnew]
  exact h.rows_perm.filterMap _

theorem bijOn : Set.BijOn (exchange rows first second) {id | id ∈ origin.given supply stock}
    {id | id ∈ origin.given supply' stock'} := by
  have hnodup : ((origin.given supply stock).map (exchange rows first second)).Nodup :=
    h.given_perm.nodup_iff.mp (Stock.nodup_given h.avoids' stock')
  refine ⟨fun id hid => ?_, fun id hid other hother he => ?_, fun id hid => ?_⟩
  · exact h.given_perm.mem_iff.mpr (List.mem_map_of_mem hid)
  · exact List.inj_on_of_nodup_map hnodup hid hother he
  · exact List.mem_map.mp (h.given_perm.mem_iff.mp hid)

end Twins

/-- Two states, with the contents they leave, are the same but for the ids that were given out. -/
structure Corresponds (exchange : BundleId → BundleId) (given given' : List BundleId)
    (initial : Contents) (first second : Replayer) (contents contents' : Contents) : Prop where
  bijOn : Set.BijOn exchange {id | id ∈ given} {id | id ∈ given'}
  /-- No other id is exchanged. -/
  others : ∀ id, id ∉ given → exchange id = id
  substitutions : ∀ id, second.substitutions.get? id =
    (first.substitutions.get? id).map (Option.map exchange)
  plan : second.plan.Perm (first.plan.map (PlanEntry.rename exchange))
  /-- The contents have grown by the same bundles. -/
  stored : ∃ made made' : List Bundle, contents = initial.addBundles made ∧
    contents' = initial.addBundles made' ∧ made'.Perm (made.map (Bundle.rename exchange))

theorem Twins.corresponds
    (h : Twins supply supply' request cache origin ids rows rows' first second stock stock') :
    Corresponds (exchange rows first second) (origin.given supply stock)
      (origin.given supply' stock') origin.contents first second stock.contents stock'.contents where
  bijOn := h.bijOn
  others _ hid := h.exchange_of_not_given hid
  substitutions := h.get?_eq
  plan := h.plan_perm
  stored := ⟨_, _, h.ended.yields.contents, h.ended'.yields.contents, h.stored_perm⟩

theorem Corresponds.mem_oldIds_iff {exchange : BundleId → BundleId} {given given' : List BundleId}
    {initial contents contents' : Contents}
    (h : Corresponds exchange given given' initial first second contents contents') :
    id ∈ second.plan.oldIds ↔ id ∈ first.plan.oldIds := by
  have hold : (first.plan.map (PlanEntry.rename exchange)).filterMap (fun entry => entry.old.id) =
      first.plan.oldIds := List.filterMap_map
  rw [Plan.oldIds, (h.plan.filterMap _).mem_iff, hold]

/-! ### Runs -/

/-- A series of walks on a store that fails no call has come to its end if it succeeds. -/
theorem Ended.of_store (ha : cache.Acyclic) (hm : request.memoize = false)
    (hshadow : request.shadow = false) {store : Store} (hf : store.failures = [])
    (hok : (((start request).substituteAll request cache ids).run (Store.handle supply) store).1.1 =
      .ok ()) :
    ∃ rows, Ended supply request cache store.stock ids rows
      (((start request).substituteAll request cache ids).run (Store.handle supply) store).1.2
      (((start request).substituteAll request cache ids).run (Store.handle supply) store).2.stock := by
  obtain ⟨hanswer, hstock, _⟩ :=
    run_view (Store.handle_eq supply) ((start request).substituteAll request cache ids) hf
  obtain ⟨hspread, ⟨rows, hyields⟩, hmapped⟩ := run_substituteAll_yields ha hm hshadow
    (Prod.ext hanswer.symm hstock.symm)
  exact ⟨rows, hspread, hyields, hmapped hok⟩

/-- If one series of walks has come to its end, another for the same bundles succeeds. -/
theorem Ended.run_again {store : Store}
    (h : Ended supply request cache store.stock ids rows first stock) (ha : cache.Acyclic)
    (hm : request.memoize = false) (hshadow : request.shadow = false) (hf : store.failures = [])
    (hids : ∀ id, id ∈ ids ↔ id ∈ ids') (supply' : IdSupply) :
    (((start request).substituteAll request cache ids').run (Store.handle supply') store).1.1 =
      .ok () := by
  rw [(run_view (Store.handle_eq supply') ((start request).substituteAll request cache ids') hf).1]
  cases hr : ((start request).substituteAll request cache ids').run (Stock.handle supply')
      store.stock with
  | mk ended after =>
      obtain ⟨result, next⟩ := ended
      cases result with
      | ok _ => rfl
      | error error =>
          exfalso
          obtain ⟨hspread, ⟨rows', hyields⟩, _⟩ := run_substituteAll_yields ha hm hshadow hr
          obtain ⟨id, old, hvisits, hn, ho, haffects, hd, hrefused⟩ := substituteAll_error ha hm hr
          -- the first series has replaced the bundle at which the second one has failed
          have hc : first.substitutions.contains id = true :=
            h.contains_iff.mpr (.inr ((Visits.congr hids).mpr hvisits))
          have hrow : (id, old) ∈ rows :=
            h.mem_rows_iff.mpr ⟨ho, hc, hn, hspread.reaches_of_affects ho haffects⟩
          obtain ⟨_, hderived, hworksheet⟩ := h.yields.made hd _ hrow
          refine hrefused hderived ?_
          rw [hyields.contents]
          exact hworksheet

/-- **The order of asking does not matter.**  For every graph without cycles, if no equivalent bundles
are taken over and nothing is shadowed: asking for the same bundles, in any order and any number of
times, on the same store, either succeeds or fails in both cases.  If it succeeds, the same old bundles
are planned, and the ids that are given out in the first case are exchanged one by one for those of the
second, which takes what stands in for each bundle, what is planned and what is stored to what it is in
the second case.

The two cases may draw their ids from different supplies, as long as these give out new ids. -/
theorem substituteAll_reorders (request : Request) (cache : Cache) (ids ids' : List BundleId)
    (supply supply' : IdSupply) (store : Store) (ha : cache.Acyclic)
    (hm : request.memoize = false) (hshadow : request.shadow = false) (hf : store.failures = [])
    (hids : ∀ id, id ∈ ids ↔ id ∈ ids')
    (hs : supply.Avoids store.allocated (request.newInputs ++ ids ++ cache.parents))
    (hs' : supply'.Avoids store.allocated (request.newInputs ++ ids ++ cache.parents)) :
    let first := ((start request).substituteAll request cache ids).run (Store.handle supply) store
    let second :=
      ((start request).substituteAll request cache ids').run (Store.handle supply') store
    (first.1.1 = .ok () ↔ second.1.1 = .ok ()) ∧ (first.1.1 = .ok () →
      (∀ id, id ∈ second.1.2.plan.oldIds ↔ id ∈ first.1.2.plan.oldIds) ∧
      ∃ exchange, Corresponds exchange (store.stock.given supply first.2.stock)
        (store.stock.given supply' second.2.stock) store.contents first.1.2 second.1.2
        first.2.contents second.2.contents) := by
  intro first second
  have hforth : first.1.1 = .ok () → second.1.1 = .ok () := fun hok => by
    obtain ⟨rows, hended⟩ := Ended.of_store ha hm hshadow hf hok
    exact hended.run_again ha hm hshadow hf hids supply'
  have hback : second.1.1 = .ok () → first.1.1 = .ok () := fun hok => by
    obtain ⟨rows, hended⟩ := Ended.of_store ha hm hshadow hf hok
    exact hended.run_again ha hm hshadow hf (fun id => (hids id).symm) supply
  refine ⟨⟨hforth, hback⟩, fun hok => ?_⟩
  obtain ⟨rows, hended⟩ := Ended.of_store ha hm hshadow hf hok
  obtain ⟨rows', hended'⟩ := Ended.of_store ha hm hshadow hf (hforth hok)
  have hsame : Ended supply' request cache store.stock ids rows' second.1.2 second.2.stock :=
    ⟨.congr hids hended'.spread, hended'.yields, fun id hid => hended'.mapped id ((hids id).mp hid)⟩
  have hcorresponds := Twins.corresponds ⟨hended, hsame, hs, hs'⟩
  exact ⟨fun _ => hcorresponds.mem_oldIds_iff, _, hcorresponds⟩

end Replayer

/-- A store with two bundles that use the raw data. -/
def Store.parted : Store :=
  .ofBundles [.mounting .dataset "raw" none [], .mounting .dataset "fix" none [],
    .mounting .run "left" (some "left") ["raw"], .mounting .run "right" (some "right") ["raw"]]

namespace Replayer

/-- The one of two bundles that is asked for first is given the first id; exchanging the ids takes the
one state to the other. -/
theorem parted_reorders :
    let request := Request.diamond none
    let cache := Cache.ofBundles (Store.parted.contents.bundles.map Bundle.explained)
    let first := ((start request).substituteAll request cache ["left", "right"]).run
      (Store.handle Stock.strokes) Store.parted
    let second := ((start request).substituteAll request cache ["right", "left", "right"]).run
      (Store.handle Stock.strokes) Store.parted
    cache.Acyclic ∧ (∀ id, id ∈ ["left", "right"] ↔ id ∈ ["right", "left", "right"]) ∧
      first.1.2.substitutions.get? "left" = some (some "|") ∧
      second.1.2.substitutions.get? "left" = some (some "||") ∧
      ∃ exchange, exchange "|" = "||" ∧
        Corresponds exchange (Store.parted.stock.given Stock.strokes first.2.stock)
          (Store.parted.stock.given Stock.strokes second.2.stock) Store.parted.contents first.1.2
          second.1.2 first.2.contents second.2.contents := by
  intro request cache first second
  have hordered : Store.parted.contents.Ordered := by decide
  have hmirrors : cache.Mirrors Store.parted.contents := by
    refine Cache.mirrors_ofBundles fun bundle hb => ?_
    obtain ⟨stored, hstored, rfl⟩ := List.mem_map.mp hb
    exact ⟨stored, hstored, rfl⟩
  have hids : ∀ id, id ∈ ["left", "right"] ↔ id ∈ ["right", "left", "right"] := by
    intro id
    simp only [List.mem_cons, List.not_mem_nil]
    tauto
  have hleft : first.1.2.substitutions.get? "left" = some (some "|") := by decide
  have hleft' : second.1.2.substitutions.get? "left" = some (some "||") := by decide
  have havoids : IdSupply.Avoids Stock.strokes Store.parted.allocated
      (request.newInputs ++ ["left", "right"] ++ cache.parents) :=
    Stock.avoids_strokes _ (by decide)
  obtain ⟨_, hsame⟩ := substituteAll_reorders request cache ["left", "right"]
    ["right", "left", "right"] Stock.strokes Stock.strokes Store.parted
    (hmirrors.acyclic hordered.acyclic) rfl rfl rfl hids havoids havoids
  obtain ⟨_, exchange, hcorresponds⟩ := hsame (by decide)
  refine ⟨hmirrors.acyclic hordered.acyclic, hids, hleft, hleft', exchange, ?_, hcorresponds⟩
  have hexchange := hcorresponds.substitutions "left"
  rw [hleft, hleft'] at hexchange
  exact (Option.some.inj (Option.some.inj hexchange)).symm

end Replayer

end Provenance
