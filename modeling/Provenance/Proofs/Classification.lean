import Provenance.Proofs.Course

/-!
# Which bundles are replaced

`Settled` is what walks keep on a graph without cycles: what is mapped and no old input has all its
parents mapped, the plan lists each replaced bundle once, and what is mapped without being replaced
stands in for itself and has no replaced parent.

Main statement: `Settled.mem_oldIds_iff`.  Of the bundles that are mapped, those are planned that are
fetched, are no old inputs, and rest on an old input; without old inputs it is the output alone.
-/

namespace Provenance

open Relation

namespace Plan

/-- The ids of the old bundles. -/
def oldIds (plan : Plan) : List BundleId :=
  plan.filterMap fun entry => entry.old.id

theorem mem_oldIds {plan : Plan} {id : BundleId} :
    id ∈ plan.oldIds ↔ ∃ entry ∈ plan, entry.old.id = some id :=
  List.mem_filterMap

theorem entryFor?_eq_none {plan : Plan} {id : BundleId} :
    plan.entryFor? id = none ↔ id ∉ plan.oldIds := by
  simp [entryFor?, mem_oldIds]

theorem oldIds_concat (plan : Plan) {old new : Bundle} {id : BundleId} (h : old.id = some id) :
    oldIds (plan ++ [⟨old, new⟩]) = oldIds plan ++ [id] := by
  rw [oldIds, List.filterMap_append]
  simp [oldIds, h]

end Plan

namespace Request

/-- An edge that walks go up: its child is fetched and no old input. -/
def Passes (request : Request) (cache : Cache) (child parent : BundleId) : Prop :=
  child ∉ request.oldInputs ∧ cache.Edge child parent

/-- Edges that walks go up lead to an old input. -/
def Rests (request : Request) (cache : Cache) (id : BundleId) : Prop :=
  ∃ input ∈ request.oldInputs, TransGen (request.Passes cache) id input

theorem find?_pairs_eq_none {request : Request} {id : BundleId} :
    (request.pairs.find? fun pair => pair.1 = id) = none ↔
      id ∉ request.pairs.map Prod.fst := by
  rw [List.find?_eq_none, List.mem_map, not_exists]
  simp only [decide_eq_true_eq, not_and]

/-- The output of a request without inputs, which is replaced on its own account. -/
def Lone (request : Request) (id : BundleId) : Prop :=
  request.oldInputs = [] ∧ request.oldOutput = some id

end Request

namespace Replayer

variable {supply : IdSupply} {stock after : Stock} {request : Request} {cache : Cache}
  {replayer next : Replayer} {targets : List BundleId} {id current parent : BundleId}
  {old made : Bundle}

/-! ### The start -/

theorem get?_start (request : Request) (id : BundleId) :
    (start request).substitutions.get? id =
      (request.pairs.find? fun pair => pair.1 = id).map fun pair => some pair.2 := by
  have h : ∀ (pairs : List (BundleId × BundleId)) (substitutions : Substitutions),
      (pairs.foldl (fun substitutions pair => substitutions.add pair.1 (some pair.2))
        substitutions).get? id = (substitutions.get? id).or
          ((pairs.find? fun pair => pair.1 = id).map fun pair => some pair.2) := by
    intro pairs
    induction pairs with
    | nil => simp
    | cons pair pairs ih =>
        intro substitutions
        rw [List.foldl_cons, ih, Register.get?_add, List.find?_cons]
        by_cases hid : pair.1 = id
        · subst hid
          cases substitutions.get? pair.1 <;> simp
        · simp [hid, Ne.symm hid]
  rw [start, h, Register.get?_empty, Option.none_or]

theorem contains_start : (start request).substitutions.contains id = true ↔
    id ∈ request.pairs.map Prod.fst := by
  rw [Register.contains, get?_start, Option.isSome_map, ← not_iff_not,
    ← Request.find?_pairs_eq_none, Bool.not_eq_true, Option.isSome_eq_false_iff,
    Option.isNone_iff_eq_none]

theorem affects_iff : replayer.affects request id old = true ↔
    request.Lone id ∨ ∃ parent ∈ old.parents, parent ∈ replayer.downstream := by
  simp [affects, Request.Lone, Request.isOutput, and_comm]

/-! ### What walks keep -/

/-- What holds of a replay between two moves. -/
structure Settled (request : Request) (cache : Cache) (targets : List BundleId)
    (replayer : Replayer) : Prop where
  inputs : ∀ id ∈ request.oldInputs, replayer.substitutions.contains id = true
  downstream_iff : ∀ id, id ∈ replayer.downstream ↔
    id ∈ request.oldInputs ∨ id ∈ replayer.plan.oldIds
  planned : ∀ entry ∈ replayer.plan, ∃ id, entry.old.id = some id ∧
    cache.get? id = some entry.old ∧ replayer.substitutions.get? id = some entry.new.id ∧
    id ∉ request.oldInputs ∧ (request.Lone id ∨ request.Rests cache id)
  nodup : replayer.plan.oldIds.Nodup
  visited : ∀ id, replayer.substitutions.contains id = true → id ∉ request.oldInputs →
    ∃ target ∈ targets, ReflTransGen (request.Passes cache) target id
  closed : ∀ id old, replayer.substitutions.contains id = true → id ∉ request.oldInputs →
    cache.get? id = some old → ∀ parent ∈ old.parents, replayer.substitutions.contains parent = true
  untouched : ∀ id, replayer.substitutions.contains id = true → id ∉ replayer.downstream →
    replayer.substitutions.get? id = some (some id) ∧ ∀ old, cache.get? id = some old →
      ¬ request.Lone id ∧ ∀ parent ∈ old.parents, parent ∉ replayer.downstream

namespace Settled

theorem start (hp : request.pairs.map Prod.fst = request.oldInputs) (targets : List BundleId) :
    Settled request cache targets (start request) := by
  have hmapped : ∀ id, (Replayer.start request).substitutions.contains id = true ↔
      id ∈ request.oldInputs := by
    intro id
    rw [contains_start, hp]
  have hdown : (Replayer.start request).downstream = request.oldInputs := hp
  refine ⟨fun id hid => (hmapped id).mpr hid, ?_, ?_, List.nodup_nil, ?_, ?_, ?_⟩
  · intro id
    rw [hdown, Plan.mem_oldIds]
    simp [Replayer.start]
  · intro entry he
    cases he
  · intro id hc hn
    exact absurd ((hmapped id).mp hc) hn
  · intro id old hc hn
    exact absurd ((hmapped id).mp hc) hn
  · intro id hc hn
    rw [hdown] at hn
    exact absurd ((hmapped id).mp hc) hn

theorem exists_entry (h : Settled request cache targets replayer)
    (hid : id ∈ replayer.plan.oldIds) : ∃ entry ∈ replayer.plan, entry.old.id = some id ∧
      cache.get? id = some entry.old ∧ replayer.substitutions.get? id = some entry.new.id ∧
      id ∉ request.oldInputs ∧ (request.Lone id ∨ request.Rests cache id) := by
  obtain ⟨entry, he, hold⟩ := Plan.mem_oldIds.mp hid
  obtain ⟨own, hown, hrest⟩ := h.planned entry he
  obtain rfl := Option.some.inj (hold.symm.trans hown)
  exact ⟨entry, he, hold, hrest⟩

theorem contains_oldIds (h : Settled request cache targets replayer)
    (hid : id ∈ replayer.plan.oldIds) : replayer.substitutions.contains id = true := by
  obtain ⟨_, _, _, _, hget, _⟩ := h.exists_entry hid
  simp [Register.contains, hget]

theorem not_mem_downstream (h : Settled request cache targets replayer)
    (hi : id ∉ request.oldInputs) (hp : id ∉ replayer.plan.oldIds) : id ∉ replayer.downstream := by
  rw [h.downstream_iff, not_or]
  exact ⟨hi, hp⟩

theorem map (h : Settled request cache targets replayer)
    (hc : ¬ replayer.substitutions.contains current = true)
    (hv : ∃ target ∈ targets, ReflTransGen (request.Passes cache) target current)
    (hparents : ∀ old, cache.get? current = some old → (¬ request.Lone current ∧
      ∀ parent ∈ old.parents, parent ∉ replayer.downstream) ∧
      ∀ parent ∈ old.parents, replayer.substitutions.contains parent = true) :
    Settled request cache targets (replayer.map current (some current)) := by
  have hadd : ∀ other,
      (replayer.map current (some current)).substitutions.contains other = true ↔
        other = current ∨ replayer.substitutions.contains other = true :=
    fun other => replayer.substitutions.contains_add current other _
  refine ⟨?_, h.downstream_iff, ?_, h.nodup, ?_, ?_, ?_⟩
  · intro id hid
    exact (hadd id).mpr (.inr (h.inputs id hid))
  · intro entry he
    obtain ⟨id, hid, hcache, hget, hrest⟩ := h.planned entry he
    exact ⟨id, hid, hcache, Register.get?_add_of_some hget, hrest⟩
  · intro id hid hn
    rcases (hadd id).mp hid with rfl | hid
    · exact hv
    · exact h.visited id hid hn
  · intro id old hid hn ho parent hp
    rw [hadd]
    rcases (hadd id).mp hid with rfl | hid
    · exact .inr ((hparents old ho).2 parent hp)
    · exact .inr (h.closed id old hid hn ho parent hp)
  · intro id hid hn
    rcases (hadd id).mp hid with rfl | hid
    · exact ⟨Register.get?_add_self _ hc, fun old ho => (hparents old ho).1⟩
    · obtain ⟨hget, hrest⟩ := h.untouched id hid hn
      exact ⟨Register.get?_add_of_some hget, hrest⟩

theorem record (h : Settled request cache targets replayer)
    (hc : ¬ replayer.substitutions.contains current = true)
    (hv : ∃ target ∈ targets, ReflTransGen (request.Passes cache) target current)
    (hold : old.id = some current) (ho : cache.get? current = some old)
    (hparents : ∀ parent ∈ old.parents, replayer.substitutions.contains parent = true)
    (haffected : request.Lone current ∨ request.Rests cache current)
    (hs : next.substitutions = replayer.substitutions.add current made.id)
    (hd : next.downstream = current :: replayer.downstream)
    (hp : next.plan = replayer.plan ++ [⟨old, made⟩]) : Settled request cache targets next := by
  have hadd : ∀ other, next.substitutions.contains other = true ↔
      other = current ∨ replayer.substitutions.contains other = true := by
    intro other
    rw [hs, Register.contains_add]
  have hinput : current ∉ request.oldInputs := fun hi => hc (h.inputs current hi)
  have hids : next.plan.oldIds = replayer.plan.oldIds ++ [current] := by
    rw [hp, Plan.oldIds_concat _ hold]
  refine ⟨?_, ?_, ?_, ?_, ?_, ?_, ?_⟩
  · intro id hid
    exact (hadd id).mpr (.inr (h.inputs id hid))
  · intro id
    rw [hd, hids, List.mem_cons, List.mem_append, List.mem_singleton, h.downstream_iff]
    tauto
  · intro entry he
    rw [hp, List.mem_append, List.mem_singleton] at he
    rw [hs]
    rcases he with he | rfl
    · obtain ⟨id, hid, hcache, hget, hrest⟩ := h.planned entry he
      exact ⟨id, hid, hcache, Register.get?_add_of_some hget, hrest⟩
    · exact ⟨current, hold, ho, Register.get?_add_self _ hc, hinput, haffected⟩
  · rw [hids, List.nodup_append]
    refine ⟨h.nodup, List.nodup_singleton current, ?_⟩
    intro id hid other hother he
    obtain rfl := List.mem_singleton.mp hother
    exact hc (h.contains_oldIds (he ▸ hid))
  · intro id hid hn
    rcases (hadd id).mp hid with rfl | hid
    · exact hv
    · exact h.visited id hid hn
  · intro id old' hid hn ho' parent hparent
    rw [hadd]
    rcases (hadd id).mp hid with rfl | hid
    · obtain rfl : old = old' := Option.some.inj (ho.symm.trans ho')
      exact .inr (hparents parent hparent)
    · exact .inr (h.closed id old' hid hn ho' parent hparent)
  · intro id hid hn
    rw [hd, List.mem_cons, not_or] at hn
    have hid := ((hadd id).mp hid).resolve_left hn.1
    obtain ⟨hget, hrest⟩ := h.untouched id hid hn.2
    rw [hs]
    refine ⟨Register.get?_add_of_some hget, fun old' ho' => ⟨(hrest old' ho').1, ?_⟩⟩
    intro parent hparent
    rw [hd, List.mem_cons, not_or]
    refine ⟨?_, (hrest old' ho').2 parent hparent⟩
    -- The parents of what is mapped were mapped before, and this one was not.
    rintro rfl
    have hn' : id ∉ request.oldInputs := fun hi => hn.2 ((h.downstream_iff id).mpr (.inl hi))
    exact hc (h.closed id old' hid hn' ho' parent hparent)

theorem rests_of_parent (h : Settled request cache targets replayer) (ha : cache.Acyclic)
    (ht : ∀ output, request.oldOutput = some output → ∀ target ∈ targets, target = output)
    (hv : ∃ target ∈ targets, ReflTransGen (request.Passes cache) target current)
    (hn : current ∉ request.oldInputs) (he : cache.Edge current parent)
    (hp : parent ∈ replayer.downstream) : request.Rests cache current := by
  rcases (h.downstream_iff parent).mp hp with hp | hp
  · exact ⟨parent, hp, .single ⟨hn, he⟩⟩
  · obtain ⟨_, _, _, _, _, _, haffected⟩ := h.exists_entry hp
    rcases haffected with hlone | ⟨input, hi, hpath⟩
    · -- The output is no ancestor of what the walk for it comes to.
      obtain ⟨target, htarget, hpath⟩ := hv
      obtain rfl := ht parent hlone.2 target htarget
      have hcycle : TransGen cache.Edge target target :=
        .tail' (ReflTransGen.mono (fun _ _ hs => hs.2) _ _ hpath) he
      exact absurd hcycle (ha target)
    · exact ⟨input, hi, .head ⟨hn, he⟩ hpath⟩

/-- Resolving a bundle whose parents are mapped keeps what holds. -/
theorem resolve (h : Settled request cache targets replayer) (ha : cache.Acyclic)
    (ht : ∀ output, request.oldOutput = some output → ∀ target ∈ targets, target = output)
    (hc : ¬ replayer.substitutions.contains current = true)
    (hv : ∃ target ∈ targets, ReflTransGen (request.Passes cache) target current)
    (hold : old.id = some current) (ho : cache.get? current = some old)
    (hparents : ∀ parent ∈ old.parents, replayer.substitutions.contains parent = true)
    (hr : Resolution supply request replayer current old stock next after) :
    Settled request cache targets next := by
  have hinput : current ∉ request.oldInputs := fun hi => hc (h.inputs current hi)
  have haffected : replayer.affects request current old = true →
      request.Lone current ∨ request.Rests cache current := by
    intro haffects
    rcases affects_iff.mp haffects with hlone | ⟨parent, hp, hdown⟩
    · exact .inl hlone
    · exact .inr (h.rests_of_parent ha ht hv hinput ⟨old, ho, hp⟩ hdown)
  cases hr with
  | unaffected hu =>
      refine h.map hc hv ?_
      intro old' ho'
      obtain rfl : old = old' := Option.some.inj (ho.symm.trans ho')
      have hnot : ¬ (request.Lone current ∨ ∃ parent ∈ old.parents, parent ∈ replayer.downstream) := by
        rw [← affects_iff, hu]
        decide
      rw [not_or] at hnot
      exact ⟨⟨hnot.1, fun parent hp hdown => hnot.2 ⟨parent, hp, hdown⟩⟩, hparents⟩
  | planned haffects => exact h.record hc hv hold ho hparents (haffected haffects) rfl rfl rfl
  | reused haffects => exact h.record hc hv hold ho hparents (haffected haffects) rfl rfl rfl
  | created haffects => exact h.record hc hv hold ho hparents (haffected haffects) rfl rfl rfl

end Settled

/-- Walks for the targets of a request come only to what they may go up to. -/
theorem passes_of_visits (hp : request.pairs.map Prod.fst = request.oldInputs)
    (h : (Replayer.start request).Visits cache targets current) :
    ∃ target ∈ targets, ReflTransGen (request.Passes cache) target current := by
  obtain ⟨target, htarget, hpath⟩ := h
  refine ⟨target, htarget, ReflTransGen.mono ?_ _ _ hpath⟩
  intro child parent hstep
  refine ⟨fun hi => hstep.1 ?_, hstep.2⟩
  rw [contains_start, hp]
  exact hi

/-- On a graph without cycles a parent that is not mapped is no obstacle: there is none. -/
theorem contains_parents (ha : cache.Acyclic) (ho : cache.get? current = some old)
    (hparents : ∀ parent ∈ old.parents,
      replayer.substitutions.contains parent = true ∨ TransGen cache.Edge parent current) :
    ∀ parent ∈ old.parents, replayer.substitutions.contains parent = true := by
  intro parent hp
  refine (hparents parent hp).resolve_right fun hpath => ha current ?_
  exact .head ⟨old, ho, hp⟩ hpath

theorem kept_settled (ha : cache.Acyclic) (hk : cache.Keyed)
    (hp : request.pairs.map Prod.fst = request.oldInputs)
    (ht : ∀ output, request.oldOutput = some output → ∀ target ∈ targets, target = output) :
    Kept supply request cache (.start request) targets
      fun replayer _ => Settled request cache targets replayer where
  keep h hc hv hn := by
    refine h.map hc (passes_of_visits hp hv) fun old ho => ?_
    rw [hn] at ho
    cases ho
  resolve h hc hv ho hparents hr :=
    h.resolve ha ht hc (passes_of_visits hp hv) (hk _ _ ho) ho (contains_parents ha ho hparents) hr

/-! ### What is planned -/

namespace Settled

theorem contains_of_passes (h : Settled request cache targets replayer)
    (hc : replayer.substitutions.contains id = true)
    (hpath : ReflTransGen (request.Passes cache) id current) :
    replayer.substitutions.contains current = true := by
  induction hpath with
  | refl => exact hc
  | tail _ hstep ih =>
      obtain ⟨hn, old, ho, hp⟩ := hstep
      exact h.closed _ old ih hn ho _ hp

/-- What is mapped and rests on an old input is planned. -/
theorem mem_oldIds_of_rests (h : Settled request cache targets replayer)
    (hc : replayer.substitutions.contains id = true) (hr : request.Rests cache id) :
    id ∈ replayer.plan.oldIds := by
  obtain ⟨input, hi, hpath⟩ := hr
  have hdown : ∀ other parent, request.Passes cache other parent →
      replayer.substitutions.contains other = true → parent ∈ replayer.downstream →
      other ∈ replayer.plan.oldIds := by
    intro other parent hstep hother hparent
    by_contra hn
    obtain ⟨hinput, old, ho, hp⟩ := hstep
    have hnot := h.not_mem_downstream hinput hn
    exact ((h.untouched other hother hnot).2 old ho).2 parent hp hparent
  induction hpath using TransGen.head_induction_on with
  | single hstep => exact hdown _ _ hstep hc ((h.downstream_iff input).mpr (.inl hi))
  | head hstep _ ih =>
      have hparent := h.contains_of_passes hc (.single hstep)
      exact hdown _ _ hstep hc ((h.downstream_iff _).mpr (.inr (ih hparent)))

/-- **What is planned** of the bundles that are mapped. -/
theorem mem_oldIds_iff (h : Settled request cache targets replayer) :
    id ∈ replayer.plan.oldIds ↔ replayer.substitutions.contains id = true ∧
      cache.contains id = true ∧ id ∉ request.oldInputs ∧
      (request.Lone id ∨ request.Rests cache id) := by
  constructor
  · intro hid
    obtain ⟨_, _, _, hcache, _, hrest⟩ := h.exists_entry hid
    exact ⟨h.contains_oldIds hid, by simp [Register.contains, hcache], hrest⟩
  · rintro ⟨hc, hcache, hinput, hlone | hrests⟩
    · by_contra hn
      have hnot := h.not_mem_downstream hinput hn
      obtain ⟨old, ho⟩ := Option.isSome_iff_exists.mp hcache
      exact ((h.untouched id hc hnot).2 old ho).1 hlone
    · exact h.mem_oldIds_of_rests hc hrests

/-- What is mapped are the old inputs and what walks may go up to from the targets. -/
theorem contains_iff (h : Settled request cache targets replayer)
    (ht : ∀ target ∈ targets, replayer.substitutions.contains target = true)
    (hn : id ∉ request.oldInputs) : replayer.substitutions.contains id = true ↔
      ∃ target ∈ targets, ReflTransGen (request.Passes cache) target id := by
  constructor
  · intro hc
    exact h.visited id hc hn
  · rintro ⟨target, htarget, hpath⟩
    exact h.contains_of_passes (ht target htarget) hpath

end Settled

end Replayer

namespace Request

variable {supply : IdSupply} {stock : Stock} {named : Request}

theorem eq_of_mem_targets (request : Request) (closure : List BundleId) :
    ∀ output, request.oldOutput = some output → ∀ target ∈ request.targets closure,
      target = output := by
  intro output ho target ht
  rw [targets, ho] at ht
  exact List.mem_singleton.mp ht

/-- A replay that succeeds ends settled. -/
theorem replay_settled (supply : IdSupply) (store : Store) (request : Request)
    (hi : store.contents.Identified) (ha : store.contents.Acyclic)
    (hnamed : named = request.inIds store.contents) {replayed : Replayed}
    (hr : (request.replay.run (Store.handle supply) store).1 = .ok replayed) :
    ∃ cache closure replayer, named.Course store.contents cache closure replayer replayed ∧
      Replayer.Settled named cache (named.targets closure) replayer := by
  have hens : request.replay.Ensures supply store.stock _ :=
    replay_ensures request
      (fun cache closure replayer _ =>
        Replayer.Settled named cache (named.targets closure) replayer)
      hi hnamed
      (fun cache closure _ hp hc => ⟨.start hp _, Replayer.kept_settled (hc.mirrors.acyclic ha)
        hc.mirrors.keyed hp (named.eq_of_mem_targets closure)⟩)
  obtain ⟨cache, closure, replayer, _, hcourse, hsettled, _⟩ :=
    hens.run (Store.handle_serves supply) replayed hr
  exact ⟨cache, closure, replayer, hcourse, hsettled⟩

end Request

end Provenance
