import Mathlib.Data.List.Forall2
import Provenance.Proofs.Walk

/-!
# How dependencies are rewritten

Whatever the graph looks like, a new bundle has the dependencies of the old one, each with what
stands in for its parent.  A parent that was mapped before its child was resolved keeps what it is
mapped to, and its entry comes first; a parent that was not mapped then was on the path of the walk,
so it is above itself.

`Traced` is what every move of a walk keeps, `Rewrites` what it says of one entry of the plan.  Main
statement: `substituteEach_rewrites`, for walks over a store in which any calls may fail.
-/

namespace Provenance

open Dialogue Relation

namespace Replayer

/-- A parent is replaced by what stands in for it, and planned, if at all, before a position. -/
structure Replaced (replayer : Replayer) (position : Nat) (parent new : BundleId) : Prop where
  target : ∃ target, replayer.substitutions.get? parent = some target ∧ new = target.getD ""
  before : ∀ other entry, replayer.plan[other]? = some entry → entry.old.id = some parent →
    other < position

/-- How the dependency of a planned bundle comes from that of the old bundle `id`: only the parent
is another, and it may stay where it is above itself by way of `id`. -/
structure Rewritten (replayer : Replayer) (cache : Cache) (position : Nat) (id : BundleId)
    (old new : Dependency) : Prop where
  parentPath : new.parentPath = old.parentPath
  childPath : new.childPath = old.childPath
  parent : replayer.Replaced position old.parentId new.parentId ∨
    new.parentId = old.parentId ∧ TransGen cache.Edge old.parentId id

/-- The dependencies of a planned bundle are rewritten one by one, in their order; if it has an id,
they name it as their child. -/
def Rewrites (replayer : Replayer) (cache : Cache) (position : Nat) (entry : PlanEntry) : Prop :=
  ∃ id, entry.old.id = some id ∧
    List.Forall₂ (replayer.Rewritten cache position id) entry.old.dependencies
      entry.new.dependencies ∧
    ∀ new, entry.new.id = some new → ∀ dependency ∈ entry.new.dependencies, dependency.childId = new

/-- The bundle that is planned at a position is no equivalent bundle that was taken over: a dry run
takes none over, nor does a replay that does not ask for it, and else it is one of those that were
created, at the first position that names it. -/
def Made (replayer : Replayer) (request : Request) (position : Nat) (new : Bundle) : Prop :=
  request.dryRun = true ∨ request.memoize = false ∨
    ∃ id ∈ replayer.created, new.id = some id ∧
      ∀ before < position, ∀ entry, replayer.plan[before]? = some entry → entry.new.id ≠ some id

/-- What holds of a plan while bundles are settled. -/
structure Traced (supply : IdSupply) (request : Request) (cache : Cache) (replayer : Replayer)
    (stock : Stock) : Prop where
  fresh : stock.Fresh supply
  planned : ∀ entry ∈ replayer.plan, ∃ id, entry.old.id = some id
  stored : ∀ entry ∈ replayer.plan, ∀ id, entry.new.id = some id → id ∈ stock.contents.ids
  created : ∀ id ∈ replayer.created, ∃ entry ∈ replayer.plan, entry.new.id = some id
  rewrites : ∀ position entry, replayer.plan[position]? = some entry →
    replayer.Made request position entry.new → replayer.Rewrites cache position entry

variable {supply : IdSupply} {stock after : Stock} {request : Request} {cache : Cache}
  {replayer next : Replayer} {id current : BundleId} {old new made : Bundle} {position : Nat}
  {entry : PlanEntry}

/-! ### What a later state keeps -/

/-- A later state has mapped one more bundle and planned nothing but that bundle. -/
structure Grown (replayer : Replayer) (current : BundleId) (next : Replayer) : Prop where
  fresh : ¬ replayer.substitutions.contains current = true
  mapped : ∃ target, next.substitutions = replayer.substitutions.add current target
  plan : ∃ more, next.plan = replayer.plan ++ more ∧ ∀ entry ∈ more, entry.old.id = some current

namespace Grown

theorem get? {target : Option BundleId} (h : replayer.Grown current next)
    (ht : replayer.substitutions.get? id = some target) :
    next.substitutions.get? id = some target := by
  obtain ⟨_, hn⟩ := h.mapped
  rw [hn]
  exact Register.get?_add_of_some ht

theorem ne {target : Option BundleId} (h : replayer.Grown current next)
    (ht : replayer.substitutions.get? id = some target) : id ≠ current := by
  rintro rfl
  exact h.fresh (by simp [Register.contains, ht])

theorem getElem? {target : Option BundleId} (h : replayer.Grown current next)
    (ht : replayer.substitutions.get? id = some target) (he : next.plan[position]? = some entry)
    (hid : entry.old.id = some id) : replayer.plan[position]? = some entry := by
  obtain ⟨more, hp, hm⟩ := h.plan
  rw [hp] at he
  rcases Nat.lt_or_ge position replayer.plan.length with hlt | hge
  · rwa [List.getElem?_append_left hlt] at he
  · rw [List.getElem?_append_right hge] at he
    have hcurrent := hm entry (List.mem_of_getElem? he)
    rw [hid] at hcurrent
    exact absurd (Option.some.inj hcurrent) (h.ne ht)

theorem replaced {parent target : BundleId} (h : replayer.Grown current next)
    (hr : replayer.Replaced position parent target) : next.Replaced position parent target := by
  obtain ⟨⟨found, ht, htarget⟩, hbefore⟩ := hr
  refine ⟨⟨found, h.get? ht, htarget⟩, ?_⟩
  intro other entry he hid
  exact hbefore other entry (h.getElem? ht he hid) hid

theorem rewrites (h : replayer.Grown current next) (hr : replayer.Rewrites cache position entry) :
    next.Rewrites cache position entry := by
  obtain ⟨id, hid, hdeps, hchild⟩ := hr
  refine ⟨id, hid, hdeps.imp ?_, hchild⟩
  intro old new hd
  exact ⟨hd.parentPath, hd.childPath, hd.parent.imp_left h.replaced⟩

end Grown

/-! ### The dependencies of one new bundle -/

theorem replaced_standIn {parent : BundleId} (h : replayer.Grown current next)
    (hp : replayer.substitutions.contains parent = true) (hfirst : ∀ other entry,
      replayer.plan[other]? = some entry → other < position) :
    next.Replaced position parent (replayer.standIn parent) := by
  obtain ⟨target, ht⟩ := Option.isSome_iff_exists.mp hp
  refine ⟨⟨target, h.get? ht, ?_⟩, ?_⟩
  · unfold standIn
    rw [ht]
    cases target <;> rfl
  · intro other entry he hid
    exact hfirst other entry (h.getElem? ht he hid)

/-- The dependencies of the description of a bundle are rewritten. -/
theorem rewritten_standIns (h : replayer.Grown current next) (hparents : ∀ parent ∈ old.parents,
      replayer.substitutions.contains parent = true ∨ TransGen cache.Edge parent current) :
    List.Forall₂ (next.Rewritten cache replayer.plan.length current) old.dependencies
      (replayer.standIns old.dependencies) := by
  rw [standIns, List.forall₂_map_right_iff, List.forall₂_same]
  intro dependency hd
  refine ⟨rfl, rfl, ?_⟩
  have hparent : dependency.parentId ∈ old.parents := List.mem_map_of_mem hd
  by_cases hc : replayer.substitutions.contains dependency.parentId = true
  · refine .inl (replaced_standIn h hc ?_)
    intro other entry he
    exact (List.getElem?_eq_some_iff.mp he).1
  · refine .inr ⟨?_, (hparents _ hparent).resolve_left hc⟩
    have hnone : replayer.substitutions.get? dependency.parentId = none := by
      simpa [Register.contains] using hc
    simp only [standIn, hnone]

/-! ### What every move keeps -/

/-- What later entries say of the first position that names a bundle was so before. -/
theorem Made.of_append {more : Plan} (hplan : next.plan = replayer.plan ++ more)
    (hcreated : ∀ id ∈ next.created, id ∈ replayer.created ∨ new.id ≠ some id)
    (h : next.Made request position new) : replayer.Made request position new := by
  rcases h with hd | hm | ⟨id, hid, hnew, hfirst⟩
  · exact .inl hd
  · exact .inr (.inl hm)
  · refine .inr (.inr ⟨id, (hcreated id hid).resolve_right (not_not_intro hnew), hnew, ?_⟩)
    intro before hbefore other ho
    refine hfirst before hbefore other ?_
    rw [hplan, List.getElem?_append_left (List.getElem?_eq_some_iff.mp ho).1]
    exact ho

namespace Traced

theorem start (hf : stock.Fresh supply) : Traced supply request cache (start request) stock := by
  refine ⟨hf, ?_, ?_, ?_, ?_⟩
  · intro entry he
    cases he
  · intro entry he
    cases he
  · intro id hid
    cases hid
  · intro position entry he
    cases he

theorem map (h : Traced supply request cache replayer stock)
    (hc : ¬ replayer.substitutions.contains current = true) (target : Option BundleId) :
    Traced supply request cache (replayer.map current target) stock := by
  have hg : replayer.Grown current (replayer.map current target) :=
    ⟨hc, ⟨target, rfl⟩, [], (List.append_nil _).symm, fun _ he => absurd he List.not_mem_nil⟩
  exact ⟨h.fresh, h.planned, h.stored, h.created,
    fun position entry he hm => hg.rewrites (h.rewrites position entry he hm)⟩

theorem append (h : Traced supply request cache replayer stock) (hg : replayer.Grown current next)
    (hplan : next.plan = replayer.plan ++ [⟨old, made⟩]) (hold : old.id = some current)
    (hf : after.Fresh supply) (hids : ∀ id ∈ stock.contents.ids, id ∈ after.contents.ids)
    (hmade : ∀ id, made.id = some id → id ∈ after.contents.ids)
    (hcreated : ∀ id ∈ next.created,
      id ∈ replayer.created ∨ (made.id = some id ∧ id ∉ stock.contents.ids))
    (hnew : next.Made request replayer.plan.length made →
      next.Rewrites cache replayer.plan.length ⟨old, made⟩) :
    Traced supply request cache next after := by
  refine ⟨hf, ?_, ?_, ?_, ?_⟩
  · intro entry he
    rw [hplan, List.mem_append, List.mem_singleton] at he
    rcases he with he | rfl
    · exact h.planned entry he
    · exact ⟨current, hold⟩
  · intro entry he id hid
    rw [hplan, List.mem_append, List.mem_singleton] at he
    rcases he with he | rfl
    · exact hids id (h.stored entry he id hid)
    · exact hmade id hid
  · intro id hid
    rw [hplan]
    rcases hcreated id hid with hid | ⟨hid, _⟩
    · obtain ⟨entry, he, hn⟩ := h.created id hid
      exact ⟨entry, List.mem_append_left _ he, hn⟩
    · exact ⟨_, List.mem_append_right _ List.mem_cons_self, hid⟩
  · intro position entry he hm
    rw [hplan] at he
    rcases Nat.lt_trichotomy position replayer.plan.length with hlt | rfl | hgt
    · rw [List.getElem?_append_left hlt] at he
      refine hg.rewrites (h.rewrites position entry he (Made.of_append hplan ?_ hm))
      intro id hid
      refine (hcreated id hid).imp_right ?_
      rintro ⟨_, hfresh⟩ hn
      exact hfresh (h.stored entry (List.mem_of_getElem? he) id hn)
    · rw [List.getElem?_concat_length] at he
      cases he
      exact hnew hm
    · have hlen : (replayer.plan ++ [PlanEntry.mk old made]).length ≤ position := by
        rw [List.length_append, List.length_singleton]
        omega
      rw [List.getElem?_eq_none hlen] at he
      cases he

/-- Resolving a bundle keeps what holds of a plan. -/
theorem resolve (h : Traced supply request cache replayer stock)
    (hc : ¬ replayer.substitutions.contains current = true) (hold : old.id = some current)
    (hparents : ∀ parent ∈ old.parents,
      replayer.substitutions.contains parent = true ∨ TransGen cache.Edge parent current)
    (hr : Resolution supply request replayer current old stock next after) :
    Traced supply request cache next after := by
  have hg : replayer.Grown current next := by
    refine ⟨hc, hr.exists_add, ?_⟩
    cases hr with
    | unaffected => exact ⟨[], (List.append_nil _).symm, fun _ he => absurd he List.not_mem_nil⟩
    | planned => exact ⟨_, rfl, fun _ he => List.mem_singleton.mp he ▸ hold⟩
    | reused => exact ⟨_, rfl, fun _ he => List.mem_singleton.mp he ▸ hold⟩
    | created => exact ⟨_, rfl, fun _ he => List.mem_singleton.mp he ▸ hold⟩
  have hdeps := rewritten_standIns hg hparents
  cases hr with
  | unaffected => exact h.map hc _
  | planned _ hd =>
      refine h.append hg rfl hold h.fresh (fun _ hid => hid) ?_ (fun _ hid => .inl hid) ?_
      · rintro _ ⟨⟩
      · intro _
        refine ⟨current, hold, hdeps, ?_⟩
        rintro _ ⟨⟩
  | @reused existing _ hd hm hs =>
      have hstored : ∀ id, existing.id = some id → id ∈ stock.contents.ids := by
        intro id hid
        obtain ⟨stored, hmem, _, rfl⟩ := Contents.exists_of_getLast?_searchBundles hs
        exact Contents.mem_ids.mpr ⟨stored, hmem, hid⟩
      refine h.append hg rfl hold h.fresh (fun _ hid => hid) hstored (fun _ hid => .inl hid) ?_
      -- A bundle that was created before has an entry that names it before.
      rintro (hd' | hm' | ⟨id, hid, hn, hfirst⟩)
      · rw [hd] at hd'
        cases hd'
      · rw [hm] at hm'
        cases hm'
      · obtain ⟨entry, he, hnew⟩ := h.created id hid
        obtain ⟨before, hlt, hget⟩ := List.getElem_of_mem he
        have hsome : (replayer.record current old existing).plan[before]? = some entry := by
          simp only [record]
          rw [List.getElem?_append_left hlt, List.getElem?_eq_getElem hlt, hget]
        exact absurd hnew (hfirst before hlt entry hsome)
  | @created made _ _ _ _ _ hs =>
      obtain ⟨rfl, _, _⟩ := hs.createBundle
      have hids := hs.createBundle_ids
      refine h.append hg rfl hold (h.fresh.createBundle hs) ?_ ?_ ?_ ?_
      · intro id hid
        rw [hids]
        exact List.mem_append_left _ hid
      · rintro _ ⟨⟩
        rw [hids]
        exact List.mem_append_right _ List.mem_cons_self
      · intro id hid
        rcases List.mem_append.mp hid with hid | hid
        · exact .inl hid
        · obtain rfl : id = supply stock.allocated := List.mem_singleton.mp hid
          exact .inr ⟨rfl, h.fresh.new _ (Nat.le_refl _)⟩
      · intro _
        refine ⟨current, hold, ?_, ?_⟩
        · simp only [Bundle.explained, Contents.newBundle_dependencies, description_dependencies]
          rw [List.forall₂_map_right_iff]
          exact hdeps.imp fun _ _ hd => ⟨hd.parentPath, hd.childPath, hd.parent⟩
        · rintro _ ⟨⟩ dependency hd
          simp only [Bundle.explained, Contents.newBundle_dependencies] at hd
          obtain ⟨_, _, rfl⟩ := List.mem_map.mp hd
          rfl

end Traced

theorem kept_traced (hk : cache.Keyed) (first : Replayer) (ids : List BundleId) :
    Kept supply request cache first ids (Traced supply request cache) where
  keep h hc _ _ := h.map hc _
  resolve h hc _ ho hp hr := h.resolve hc (hk _ _ ho) hp hr

/-- **Dependencies are rewritten**, on any graph and however many bundles are asked for: every new
bundle that was not taken over has the dependencies of the old one in their order, each with the
final substitution of its parent, which is planned before, and with the new bundle as its child.  A
parent is kept only if it is above itself by way of the old bundle. -/
theorem substituteEach_rewrites (supply : IdSupply) (schedule : List (Nat × StoreError))
    (recorded : Recorded) (request : Request) (cache : Cache) (ids : List BundleId)
    (hf : recorded.stock.Fresh supply) (hk : cache.Keyed) (replayer : Replayer)
    (hr : (((start request).substituteEach request cache ids).run
      (Recorded.handle supply schedule) recorded).1 = replayer) (position : Nat)
    (entry : PlanEntry) (he : replayer.plan[position]? = some entry)
    (hm : replayer.Made request position entry.new) : replayer.Rewrites cache position entry := by
  have hens : ((start request).substituteEach request cache ids).Ensures supply recorded.stock
      (Traced supply request cache) :=
    substituteEach_ensures (fun _ hid => hid) (kept_traced hk _ ids) (Traced.start hf)
  have hinv := hens.run (Recorded.handle_serves supply schedule)
  rw [hr] at hinv
  exact hinv.rewrites position entry he hm

/-- Two bundles on a cycle, one of which uses the raw data. -/
def loop : List Bundle :=
  [.mounting .dataset "raw" none [], .mounting .dataset "fix" none [],
    .mounting .run "left" (some "left") ["right", "raw"],
    .mounting .run "right" (some "right") ["left"]]

/-- A request to replay them on the fixed data. -/
def replaceRaw : Request :=
  { Request.ofDefaults "w" .standard with oldInputs := ["raw"], newInputs := ["fix"] }

/-- The state after asking twice for a bundle on the cycle, where the first call fails. -/
def askedTwice : Replayer :=
  (((start replaceRaw).substituteEach replaceRaw (.ofBundles loop) ["right", "right"]).run
    (Recorded.handle Stock.strokes [(0, .transport "gone")]) (.ofStore (.ofBundles loop))).1

/-- Both bundles of the cycle are made, with rewritten dependencies. -/
theorem askedTwice_rewrites : ∃ left right, askedTwice.plan = [left, right] ∧
    askedTwice.Rewrites (.ofBundles loop) 0 left ∧
    askedTwice.Rewrites (.ofBundles loop) 1 right := by
  have hlength : askedTwice.plan.length = 2 := by decide
  obtain ⟨left, right, hplan⟩ := List.length_eq_two.mp hlength
  have hfresh : (Recorded.ofStore (.ofBundles loop)).stock.Fresh Stock.strokes :=
    Stock.fresh_strokes (by decide)
  have h := substituteEach_rewrites Stock.strokes [(0, .transport "gone")]
    (.ofStore (.ofBundles loop)) replaceRaw (.ofBundles loop) ["right", "right"] hfresh
    (Cache.keyed_ofBundles loop) askedTwice rfl
  refine ⟨left, right, hplan, h 0 left ?_ (.inr (.inl rfl)), h 1 right ?_ (.inr (.inl rfl))⟩
  · rw [hplan]
    rfl
  · rw [hplan]
    rfl

end Replayer

end Provenance
