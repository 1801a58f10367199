import Provenance.Proofs.Classification
import Provenance.Proofs.Refusal

/-!
# How far a replacement spreads

Whether a bundle is affected is decided by a list that grows while the graph is walked.  On a graph
without cycles this depends on the graph alone: `Request.Reaches` says which bundles a replacement
reaches, and `Replayer.Spread` what walks keep of it, whatever bundles are asked for and however often.

* `Replayer.Spread.mem_downstream_iff`: of the mapped bundles, those are replaced that are reached.
* `Replayer.Spread.contains_iff`: the mapped bundles are those that the walks may come to.
* `Replayer.substituteAll_error`: if asking for some bundles fails, it does so at one of these.
-/

namespace Provenance

open Dialogue Relation

/-- A replacement reaches the replaced inputs, the output of a request without inputs, and every
fetched bundle with a parent that it reaches. -/
inductive Request.Reaches (request : Request) (cache : Cache) : BundleId → Prop
  | input {id : BundleId} (h : id ∈ request.pairs.map Prod.fst) : request.Reaches cache id
  | output {id : BundleId} (h : request.Lone id) (hc : cache.contains id = true) :
      request.Reaches cache id
  | child {id parent : BundleId} (he : cache.Edge id parent) (h : request.Reaches cache parent) :
      request.Reaches cache id

namespace Replayer

variable {supply : IdSupply} {stock after : Stock} {request : Request} {cache : Cache}
  {replayer other next : Replayer} {ids ids' : List BundleId} {id current parent : BundleId}
  {old : Bundle}

/-- What is mapped between two walks for some bundles: what was mapped at the start, and what the walks
may come to, with its parents. -/
structure Mapped (request : Request) (cache : Cache) (ids : List BundleId)
    (substitutions : Substitutions) : Prop where
  started : ∀ id, (start request).substitutions.contains id = true →
    substitutions.get? id = (start request).substitutions.get? id
  visited : ∀ id, substitutions.contains id = true →
    (start request).substitutions.contains id = true ∨ (start request).Visits cache ids id
  closed : ∀ id old, substitutions.contains id = true →
    ¬ (start request).substitutions.contains id = true → cache.get? id = some old →
      ∀ parent ∈ old.parents, substitutions.contains parent = true

/-- What holds of a replay between two walks for some bundles. -/
structure Spread (request : Request) (cache : Cache) (ids : List BundleId) (replayer : Replayer) :
    Prop extends Mapped request cache ids replayer.substitutions where
  inputs : ∀ id, (start request).substitutions.contains id = true → id ∈ replayer.downstream
  reached : ∀ id ∈ replayer.downstream,
    request.Reaches cache id ∧ replayer.substitutions.contains id = true
  untouched : ∀ id, replayer.substitutions.contains id = true → id ∉ replayer.downstream →
    replayer.substitutions.get? id = some (some id) ∧ ∀ old, cache.get? id = some old →
      ¬ request.Lone id ∧ ∀ parent ∈ old.parents, parent ∉ replayer.downstream

theorem Mapped.add {substitutions : Substitutions} (h : Mapped request cache ids substitutions)
    (hv : (start request).Visits cache ids current)
    (hparents : ∀ old, cache.get? current = some old →
      ∀ parent ∈ old.parents, substitutions.contains parent = true) (new : Option BundleId) :
    Mapped request cache ids (substitutions.add current new) where
  started id hid := by
    obtain ⟨found, hfound⟩ := Option.isSome_iff_exists.mp hid
    have hsame := (h.started id hid).trans hfound
    rw [Register.get?_add_of_some hsame, hfound]
  visited id hid := by
    rcases (Register.contains_add ..).mp hid with rfl | hid
    · exact .inr hv
    · exact h.visited id hid
  closed id old hid hn ho parent hp := by
    rw [Register.contains_add]
    rcases (Register.contains_add ..).mp hid with rfl | hid
    · exact .inr (hparents old ho parent hp)
    · exact .inr (h.closed id old hid hn ho parent hp)

theorem get?_of_add {new : Option BundleId}
    (hs : next.substitutions = replayer.substitutions.add current new)
    (hc : replayer.substitutions.contains id = true) :
    next.substitutions.get? id = replayer.substitutions.get? id := by
  obtain ⟨found, hfound⟩ := Option.isSome_iff_exists.mp hc
  rw [hs, hfound, Register.get?_add_of_some hfound]

theorem standIns_congr (h : ∀ parent ∈ old.parents, next.standIn parent = replayer.standIn parent) :
    next.standIns old.dependencies = replayer.standIns old.dependencies := by
  refine List.map_congr_left fun dependency hd => ?_
  rw [h dependency.parentId (List.mem_map_of_mem hd)]

theorem standIns_of_add {new : Option BundleId}
    (hs : next.substitutions = replayer.substitutions.add current new)
    (hparents : ∀ parent ∈ old.parents, replayer.substitutions.contains parent = true) :
    next.standIns old.dependencies = replayer.standIns old.dependencies := by
  refine standIns_congr fun parent hp => ?_
  rw [standIn, standIn, get?_of_add hs (hparents parent hp)]

namespace Spread

theorem reaches_of_affects (h : Spread request cache ids replayer) (ho : cache.get? id = some old)
    (haffects : replayer.affects request id old = true) : request.Reaches cache id := by
  rcases affects_iff.mp haffects with hlone | ⟨parent, hp, hdown⟩
  · exact .output hlone (by simp [Register.contains, ho])
  · exact .child ⟨old, ho, hp⟩ (h.reached parent hdown).1

theorem start (request : Request) (cache : Cache) (ids : List BundleId) :
    Spread request cache ids (start request) where
  started _ _ := rfl
  visited _ hc := .inl hc
  closed _ _ hc hn := absurd hc hn
  inputs _ hc := contains_start.mp hc
  reached _ hid := ⟨.input hid, contains_start.mpr hid⟩
  untouched _ hc hn := absurd (contains_start.mp hc) hn

theorem map (h : Spread request cache ids replayer)
    (hc : ¬ replayer.substitutions.contains current = true)
    (hv : (Replayer.start request).Visits cache ids current)
    (hparents : ∀ old, cache.get? current = some old →
      ∀ parent ∈ old.parents, replayer.substitutions.contains parent = true)
    (hsafe : ∀ old, cache.get? current = some old →
      replayer.affects request current old = false) :
    Spread request cache ids (replayer.map current (some current)) where
  toMapped := h.toMapped.add hv hparents (some current)
  inputs := h.inputs
  reached id hid :=
    ⟨(h.reached id hid).1, (Register.contains_add ..).mpr (.inr (h.reached id hid).2)⟩
  untouched id hid hn := by
    rcases (Register.contains_add ..).mp hid with rfl | hid
    · refine ⟨Register.get?_add_self _ hc, fun old ho => ?_⟩
      have hnot := (not_congr affects_iff).mp (Bool.eq_false_iff.mp (hsafe old ho))
      rw [not_or] at hnot
      exact ⟨hnot.1, fun parent hp hdown => hnot.2 ⟨parent, hp, hdown⟩⟩
    · obtain ⟨hself, hrest⟩ := h.untouched id hid hn
      exact ⟨Register.get?_add_of_some hself, hrest⟩

theorem record (h : Spread request cache ids replayer)
    (hc : ¬ replayer.substitutions.contains current = true)
    (hv : (Replayer.start request).Visits cache ids current) (ho : cache.get? current = some old)
    (hparents : ∀ parent ∈ old.parents, replayer.substitutions.contains parent = true)
    (haffects : replayer.affects request current old = true) {new : Option BundleId}
    (hs : next.substitutions = replayer.substitutions.add current new)
    (hd : next.downstream = current :: replayer.downstream) :
    Spread request cache ids next := by
  have hadd : ∀ other, next.substitutions.contains other = true ↔
      other = current ∨ replayer.substitutions.contains other = true := by
    intro other
    rw [hs, Register.contains_add]
  have hall : ∀ other, cache.get? current = some other →
      ∀ parent ∈ other.parents, replayer.substitutions.contains parent = true := by
    intro other hother
    obtain rfl : old = other := Option.some.inj (ho.symm.trans hother)
    exact hparents
  refine ⟨hs ▸ h.toMapped.add hv hall new, ?_, ?_, ?_⟩
  · intro id hid
    rw [hd]
    exact List.mem_cons_of_mem _ (h.inputs id hid)
  · intro id hid
    rw [hd] at hid
    rcases List.mem_cons.mp hid with rfl | hid
    · exact ⟨h.reaches_of_affects ho haffects, (hadd id).mpr (.inl rfl)⟩
    · exact ⟨(h.reached id hid).1, (hadd id).mpr (.inr (h.reached id hid).2)⟩
  · intro id hid hn
    rw [hd, List.mem_cons, not_or] at hn
    have hid := ((hadd id).mp hid).resolve_left hn.1
    obtain ⟨hself, hrest⟩ := h.untouched id hid hn.2
    refine ⟨by rw [get?_of_add hs hid, hself], fun old' ho' => ⟨(hrest old' ho').1, ?_⟩⟩
    intro parent hp
    rw [hd, List.mem_cons, not_or]
    refine ⟨?_, (hrest old' ho').2 parent hp⟩
    -- the parents of what is mapped were mapped before, and this one was not
    rintro rfl
    exact hc (h.closed id old' hid (fun hm => hn.2 (h.inputs id hm)) ho' parent hp)

theorem resolve (h : Spread request cache ids replayer)
    (hc : ¬ replayer.substitutions.contains current = true)
    (hv : (Replayer.start request).Visits cache ids current) (ho : cache.get? current = some old)
    (hparents : ∀ parent ∈ old.parents, replayer.substitutions.contains parent = true)
    (hr : Resolution supply request replayer current old stock next after) :
    Spread request cache ids next := by
  cases hr with
  | unaffected hu =>
      refine h.map hc hv (fun other hother => ?_) fun other hother => ?_
      · obtain rfl : old = other := Option.some.inj (ho.symm.trans hother)
        exact hparents
      · obtain rfl : old = other := Option.some.inj (ho.symm.trans hother)
        exact hu
  | planned haffects => exact h.record hc hv ho hparents haffects rfl rfl
  | reused haffects => exact h.record hc hv ho hparents haffects rfl rfl
  | created haffects => exact h.record hc hv ho hparents haffects rfl rfl

theorem keep (h : Spread request cache ids replayer)
    (hc : ¬ replayer.substitutions.contains current = true)
    (hv : (Replayer.start request).Visits cache ids current) (hn : cache.get? current = none) :
    Spread request cache ids (replayer.map current (some current)) := by
  have hnone : ∀ {p : Bundle → Prop} old, cache.get? current = some old → p old := by
    intro p old ho
    rw [hn] at ho
    cases ho
  exact h.map hc hv hnone hnone

theorem kept (supply : IdSupply) (ha : cache.Acyclic) (ids : List BundleId) :
    Kept supply request cache (Replayer.start request) ids
      fun replayer _ => Spread request cache ids replayer where
  keep h hc hv hn := h.keep hc hv hn
  resolve h hc hv ho hparents hr := h.resolve hc hv ho (contains_parents ha ho hparents) hr

/-! ### What is replaced -/

/-- **What is replaced** of the bundles that are mapped. -/
theorem mem_downstream_iff (h : Spread request cache ids replayer) :
    id ∈ replayer.downstream ↔
      request.Reaches cache id ∧ replayer.substitutions.contains id = true := by
  refine ⟨h.reached id, ?_⟩
  rintro ⟨hreaches, hc⟩
  induction hreaches with
  | input hid => exact h.inputs _ (contains_start.mpr hid)
  | output hlone hcached =>
      by_contra hn
      obtain ⟨old, ho⟩ := Option.isSome_iff_exists.mp hcached
      exact ((h.untouched _ hc hn).2 old ho).1 hlone
  | child he _ ih =>
      by_contra hn
      obtain ⟨old, ho, hp⟩ := he
      have hmapped := h.closed _ old hc (fun hs => hn (h.inputs _ hs)) ho _ hp
      exact ((h.untouched _ hc hn).2 old ho).2 _ hp (ih hmapped)

/-- **What is mapped** when all that was asked for is. -/
theorem contains_iff (h : Spread request cache ids replayer)
    (hids : ∀ id ∈ ids, replayer.substitutions.contains id = true) :
    replayer.substitutions.contains id = true ↔
      (Replayer.start request).substitutions.contains id = true ∨
        (Replayer.start request).Visits cache ids id := by
  refine ⟨h.visited id, ?_⟩
  rintro (hs | ⟨target, htarget, hpath⟩)
  · exact (h.reached id (h.inputs id hs)).2
  · induction hpath with
    | refl => exact hids target htarget
    | tail _ hstep ih =>
        obtain ⟨hn, old, ho, hp⟩ := hstep
        exact h.closed _ old ih hn ho _ hp

end Spread

/-! ### Lists with the same elements -/

theorem Visits.congr (h : ∀ id, id ∈ ids ↔ id ∈ ids') :
    replayer.Visits cache ids id ↔ replayer.Visits cache ids' id := by
  simp only [Visits, h]

theorem Spread.congr (hids : ∀ id, id ∈ ids ↔ id ∈ ids') (h : Spread request cache ids' replayer) :
    Spread request cache ids replayer where
  started := h.started
  visited id hc := (h.visited id hc).imp_right (Visits.congr hids).mpr
  closed := h.closed
  inputs := h.inputs
  reached := h.reached
  untouched := h.untouched

/-- Whatever the walks for some ids may come to is one of these or a parent of a fetched bundle. -/
theorem Visits.mem (h : replayer.Visits cache ids id) : id ∈ ids ∨ id ∈ cache.parents := by
  obtain ⟨target, htarget, hpath⟩ := h
  rcases ReflTransGen.cases_tail hpath with rfl | ⟨child, _, _, old, ho, hp⟩
  · exact .inl htarget
  · exact .inr (List.mem_flatMap.mpr ⟨(child, old), Register.mem_of_get? ho, hp⟩)

/-! ### Where asking fails -/

theorem exists_itinerary_visits (request : Request) (ha : cache.Acyclic) (ids : List BundleId) :
    ∃ todo, (start request).substituteAll request cache ids =
        (start request).settleAll request cache todo ∧
      ∀ id ∈ todo, ¬ (start request).substitutions.contains id = true ∧
        (start request).Visits cache ids id := by
  obtain ⟨todo, hunsettled, htodo⟩ := exists_itinerary cache (start request) ids
  refine ⟨todo, htodo request _ fun _ => Iff.rfl, fun id hid => ?_⟩
  have hfree := hunsettled.not_contains id hid
  -- the dry run settles the same bundles, and nothing can stop it
  let dry : Request := request.preview false
  have hdry : (start dry).substituteAll dry cache ids =
      pure (.ok (), (start dry).foreseeAll dry cache todo) :=
    (htodo dry _ fun _ => Iff.rfl).trans (settleAll_eq_foreseeAll rfl cache _ todo)
  have hspread : Spread dry cache ids ((start dry).foreseeAll dry cache todo) := by
    have hensures : ((start dry).substituteAll dry cache ids).Ensures Stock.strokes ⟨.empty, 0⟩ _ :=
      substituteAll_ensures (fun _ hid => hid) (Spread.kept Stock.strokes ha ids)
        (Spread.start dry cache ids)
    rw [hdry] at hensures
    exact hensures.1
  have hmapped : ((start dry).foreseeAll dry cache todo).substitutions.contains id = true := by
    have horderly := settleAll_orderly dry cache (start dry) todo
    rw [settleAll_eq_foreseeAll rfl] at horderly
    exact (horderly rfl id).mpr (.inl hid)
  exact ⟨hfree, (hspread.visited id hmapped).resolve_left hfree⟩

theorem run_settleAll_error {todo : List BundleId} {error : ReplayError}
    (hr : (replayer.settleAll request cache todo).run (Stock.handle supply) stock =
      ((.error error, next), after)) :
    ∃ id ∈ todo, ((next.settle request cache id).run (Stock.handle supply) after).1 =
      .error error := by
  induction todo generalizing replayer stock with
  | nil => cases hr
  | cons id todo ih =>
      rw [settleAll, run_bind] at hr
      have hsettles : (replayer.settle request cache id).Ensures supply stock _ :=
        settle_ensures request cache replayer id
      have hfailed := hsettles.run (Stock.handle_serves supply)
      cases hsettle : ((replayer.settle request cache id).run (Stock.handle supply) stock).1 with
      | error other =>
          have hsame : ((replayer.settle request cache id).run (Stock.handle supply) stock).2 =
              stock := hfailed.1 other hsettle
          rw [hsettle, hsame] at hr
          cases hr
          exact ⟨id, List.mem_cons_self, hsettle⟩
      | ok settled =>
          rw [hsettle] at hr
          obtain ⟨failed, hmem, herror⟩ := ih hr
          exact ⟨failed, List.mem_cons_of_mem _ hmem, herror⟩

/-- Unless equivalent bundles are taken over, settling a bundle fails only if it is to be created and is
not derived, or has no target. -/
theorem settle_error (hm : request.memoize = false) {error : ReplayError}
    (hr : ((replayer.settle request cache id).run (Stock.handle supply) stock).1 = .error error) :
    ∃ old, cache.get? id = some old ∧ replayer.affects request id old = true ∧
      request.dryRun = false ∧ (old.kind.isDerived = true →
        ¬ (stock.contents.worksheet? request.worksheet).isSome = true) := by
  cases hd : request.dryRun with
  | true =>
      rw [settle_eq_foresee hd] at hr
      cases hr
  | false =>
      cases ho : cache.get? id with
      | none =>
          simp only [settle, ho] at hr
          cases hr
      | some old =>
          cases haffected : replayer.affects request id old with
          | false =>
              simp [settle, ho, resolve, haffected] at hr
          | true =>
              refine ⟨old, rfl, haffected, rfl, fun hderived ht => ?_⟩
              have hwanted : (replayer.description request id old).kind.isDerived = true := hderived
              obtain ⟨made, after, hmade⟩ := run_create supply id hwanted ht
              rw [settle_of_affects hd hm ho haffected, run_bind, hmade] at hr
              cases hr

/-- **If asking for some bundles fails**, it fails at one that the walks may come to and that is affected
by then. -/
theorem substituteAll_error (ha : cache.Acyclic) (hm : request.memoize = false) {error : ReplayError}
    (hr : ((start request).substituteAll request cache ids).run (Stock.handle supply) stock =
      ((.error error, next), after)) :
    ∃ id old, (start request).Visits cache ids id ∧
      ¬ (start request).substitutions.contains id = true ∧ cache.get? id = some old ∧
      next.affects request id old = true ∧ request.dryRun = false ∧ (old.kind.isDerived = true →
        ¬ (after.contents.worksheet? request.worksheet).isSome = true) := by
  obtain ⟨todo, htodo, hvisits⟩ := exists_itinerary_visits request ha ids
  rw [htodo] at hr
  obtain ⟨id, hid, hfailed⟩ := run_settleAll_error hr
  obtain ⟨old, hrest⟩ := settle_error hm hfailed
  exact ⟨id, old, (hvisits id hid).2, (hvisits id hid).1, hrest⟩

end Replayer

end Provenance
