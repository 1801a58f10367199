import Provenance.Proofs.Classification

/-!
# What a replay plans

On a store whose bundles have distinct ids and no cycles, a replay that succeeds plans each old
bundle at most once.

* `replay_plans_affected`: with an output, exactly those bundles near the output that the walk comes
  to and that rest on an old input; without inputs, the output alone.
* `replay_plans_descendants`: without an output, everything on the levels below the old inputs that
  are looked at, and nothing but descendants of the old inputs.
-/

namespace Provenance

open Relation

namespace Plan

variable {plan : Plan} {id : BundleId}

theorem map_old_id (h : ∀ entry ∈ plan, entry.old.id.isSome = true) :
    plan.map (fun entry => entry.old.id) = plan.oldIds.map some := by
  induction plan with
  | nil => rfl
  | cons entry plan ih =>
      obtain ⟨id, hid⟩ := Option.isSome_iff_exists.mp (h entry List.mem_cons_self)
      have hrest := ih fun other ho => h other (List.mem_cons_of_mem _ ho)
      have hcons : oldIds (entry :: plan) = id :: oldIds plan := by
        simp [oldIds, hid]
      rw [List.map_cons, hcons, List.map_cons, hid, hrest]

theorem eq_singleton (h : ∀ entry ∈ plan, entry.old.id.isSome = true) (hn : plan.oldIds.Nodup)
    (hid : ∀ other, other ∈ plan.oldIds ↔ other = id) :
    ∃ entry, plan = [entry] ∧ entry.old.id = some id := by
  have hperm : plan.oldIds.Perm [id] := by
    rw [List.perm_ext_iff_of_nodup hn (List.nodup_singleton id)]
    intro other
    rw [hid, List.mem_singleton]
  have hmap := map_old_id h
  rw [List.perm_singleton.mp hperm] at hmap
  obtain ⟨entry, hentry, hold⟩ := List.map_eq_singleton_iff.mp hmap
  exact ⟨entry, hentry, hold⟩

end Plan

namespace Replayer.Settled

variable {request : Request} {cache : Cache} {targets : List BundleId} {replayer : Replayer}

theorem isSome_old (h : Settled request cache targets replayer) :
    ∀ entry ∈ replayer.plan, entry.old.id.isSome = true := by
  intro entry he
  obtain ⟨id, hid, _⟩ := h.planned entry he
  rw [hid]
  rfl

end Replayer.Settled

namespace Request

variable {request named : Request} {contents : Contents} {cache : Cache} {closure : List BundleId}
  {output id child parent : BundleId}

/-! ### With an output -/

/-- A bundle is the output, or less than `depth` edges above it. -/
def Near (request : Request) (contents : Contents) (id : BundleId) : Prop :=
  ∃ output, request.oldOutput = some output ∧ contents.Within [output] (request.depth - 1) id

/-- An edge up from a bundle near the output that is no old input. -/
def Follows (request : Request) (contents : Contents) (child parent : BundleId) : Prop :=
  request.Near contents child ∧ child ∉ request.oldInputs ∧ contents.Edge child parent

namespace Collected

theorem passes_iff (h : request.Collected contents cache closure) (hi : contents.Identified) :
    request.Passes cache child parent ↔ cache.contains child = true ∧
      child ∉ request.oldInputs ∧ contents.Edge child parent := by
  constructor
  · rintro ⟨hn, bundle, hb, hp⟩
    exact ⟨by simp [Register.contains, hb], hn, h.mirrors.edge ⟨bundle, hb, hp⟩⟩
  · rintro ⟨hc, hn, he⟩
    exact ⟨hn, h.mirrors.edge_of_contains hi hc he⟩

theorem contains_iff_near (h : request.Collected contents cache closure)
    (ho : request.oldOutput = some output) :
    cache.contains id = true ↔ request.Near contents id := by
  rw [h.contains_iff]
  simp only [Seed, Near, ho]
  constructor
  · rintro ⟨seed, rfl, hw⟩
    exact ⟨seed, rfl, hw⟩
  · rintro ⟨seed, hs, hw⟩
    exact ⟨seed, (Option.some.inj hs).symm, hw⟩

theorem passes_eq_follows (h : request.Collected contents cache closure)
    (hi : contents.Identified) (ho : request.oldOutput = some output) :
    request.Passes cache = request.Follows contents := by
  funext child parent
  rw [eq_iff_iff, h.passes_iff hi, h.contains_iff_near ho, Follows]

end Collected

/-- **Exactly the affected bundles** are planned by a replay with an output: each once, those near
the output that the walk from it comes to, that are no old inputs, and from which it comes to one.
Without old inputs the output is planned alone. -/
theorem replay_plans_affected (supply : IdSupply) (store : Store) (request : Request)
    (hi : store.contents.Identified) (ha : store.contents.Acyclic)
    (hnamed : named = request.inIds store.contents) (ho : named.oldOutput = some output)
    {replayed : Replayed}
    (hr : (request.replay.run (Store.handle supply) store).1 = .ok replayed) :
    (∀ entry ∈ replayed.plan, entry.old.id.isSome = true) ∧ replayed.plan.oldIds.Nodup ∧
      (named.oldInputs ≠ [] → ∀ id, id ∈ replayed.plan.oldIds ↔
        ReflTransGen (named.Follows store.contents) output id ∧
        named.Near store.contents id ∧ id ∉ named.oldInputs ∧
        ∃ input ∈ named.oldInputs, ReflTransGen (named.Follows store.contents) id input) ∧
      (named.oldInputs = [] → ∃ entry, replayed.plan = [entry] ∧ entry.old.id = some output) := by
  obtain ⟨cache, closure, replayer, hcourse, hsettled⟩ :=
    replay_settled supply store request hi ha hnamed hr
  have hc := hcourse.collected
  have htargets : named.targets closure = [output] := by
    rw [targets, ho]
  have hmapped : ∀ id ∉ named.oldInputs, replayer.substitutions.contains id = true ↔
      ReflTransGen (named.Follows store.contents) output id := by
    intro id hn
    rw [hsettled.contains_iff hcourse.mapped hn, htargets, hc.passes_eq_follows hi ho]
    simp
  rw [hcourse.plan]
  refine ⟨hsettled.isSome_old, hsettled.nodup, ?_, ?_⟩
  · intro hinputs id
    have hlone : ¬ named.Lone id := fun h => hinputs h.1
    rw [hsettled.mem_oldIds_iff, hc.contains_iff_near ho, Rests, hc.passes_eq_follows hi ho]
    constructor
    · rintro ⟨hcontains, hnear, hn, hrests⟩
      obtain ⟨input, hinput, hpath⟩ := hrests.resolve_left hlone
      exact ⟨(hmapped id hn).mp hcontains, hnear, hn, input, hinput, hpath.to_reflTransGen⟩
    · rintro ⟨hreached, hnear, hn, input, hinput, hpath⟩
      refine ⟨(hmapped id hn).mpr hreached, hnear, hn, .inr ⟨input, hinput, ?_⟩⟩
      rcases reflTransGen_iff_eq_or_transGen.mp hpath with he | hpath
      · exact absurd (he ▸ hinput) hn
      · exact hpath
  · intro hinputs
    refine Plan.eq_singleton hsettled.isSome_old hsettled.nodup ?_
    intro id
    have hn : id ∉ named.oldInputs := by simp [hinputs]
    have hrests : ¬ named.Rests cache id := by simp [Rests, hinputs]
    rw [hsettled.mem_oldIds_iff, hmapped id hn, hc.contains_iff_near ho]
    constructor
    · rintro ⟨_, _, _, haffected⟩
      have hlone := (haffected.resolve_right hrests).2
      exact (Option.some.inj (ho.symm.trans hlone)).symm
    · rintro rfl
      have hnear : named.Near store.contents id :=
        ⟨id, ho, id, List.mem_cons_self, 0, Nat.zero_le _, .here id⟩
      exact ⟨.refl, hnear, hn, .inl ⟨hinputs, ho⟩⟩

/-- Of the diamond, what rests on the raw data is planned. -/
theorem diamond_plans_affected : ∃ replayed,
    ((diamond (some "eval")).replay.run (Store.handle Stock.strokes) Store.diamond).1 =
      .ok replayed ∧ replayed.plan.oldIds.Nodup ∧ ∀ id, id ∈ replayed.plan.oldIds ↔
        ReflTransGen ((diamond (some "eval")).Follows Store.diamond.contents) "eval" id ∧
        (diamond (some "eval")).Near Store.diamond.contents id ∧ id ∉ ["raw"] ∧
        ∃ input ∈ ["raw"],
          ReflTransGen ((diamond (some "eval")).Follows Store.diamond.contents) id input := by
  obtain ⟨replayed, hr⟩ := exists_replayed_diamond (.inr rfl)
  have hnamed : diamond (some "eval") = (diamond (some "eval")).inIds Store.diamond.contents := by
    decide
  have hordered : Store.diamond.contents.Ordered := by decide
  have h := replay_plans_affected Stock.strokes Store.diamond (diamond (some "eval")) (by decide)
    hordered.acyclic hnamed rfl hr
  exact ⟨replayed, hr, h.2.1, h.2.2.1 (by decide)⟩

/-! ### Without an output -/

namespace Collected

variable {level : Nat}

theorem seed_of_level (ho : request.oldOutput = none) (hle : level ≤ request.depth)
    (hl : contents.Level request.oldInputs level id) : request.Seed contents id := by
  rw [Seed, ho]
  exact ⟨level, hle, hl⟩

theorem contains_of_seed (h : request.Collected contents cache closure)
    (hs : request.Seed contents id) : cache.contains id = true :=
  (h.contains_iff id).mpr ⟨id, hs, id, List.mem_cons_self, 0, Nat.zero_le _, .here id⟩

theorem mem_targets_of_level (h : request.Collected contents cache closure)
    (ho : request.oldOutput = none) (hle : level ≤ request.depth)
    (hl : contents.Level request.oldInputs level id) : id ∈ request.targets closure := by
  rw [targets, ho]
  exact (h.closure_iff id).mpr
    ⟨id, seed_of_level ho hle hl, id, List.mem_cons_self, 0, Nat.zero_le _, .here id⟩

theorem rests_of_level (h : request.Collected contents cache closure) (hi : contents.Identified)
    (ho : request.oldOutput = none) (hle : level ≤ request.depth)
    (hl : contents.Level request.oldInputs level id) (hn : id ∉ request.oldInputs) :
    request.Rests cache id := by
  induction level generalizing id with
  | zero => exact absurd (Contents.Level.zero_iff.mp hl) hn
  | succ level ih =>
      obtain ⟨parent, he, hp⟩ := hl.exists_parent
      have hc : cache.contains id = true := h.contains_of_seed (seed_of_level ho hle hl)
      have hstep : request.Passes cache id parent := (h.passes_iff hi).mpr ⟨hc, hn, he⟩
      by_cases hparent : parent ∈ request.oldInputs
      · exact ⟨parent, hparent, .single hstep⟩
      · obtain ⟨input, hinput, hpath⟩ := ih (by omega) hp hparent
        exact ⟨input, hinput, .head hstep hpath⟩

end Collected

theorem exists_level (hn : id ∉ request.oldInputs)
    (h : ∃ input ∈ request.oldInputs, TransGen contents.Edge id input) :
    ∃ level, 1 ≤ level ∧ contents.Level request.oldInputs level id := by
  obtain ⟨input, hinput, hpath⟩ := h
  obtain ⟨n, hclimb⟩ := exists_climb_of_reflTransGen hpath.to_reflTransGen
  obtain ⟨level, _, hl⟩ := Contents.Level.exists_le hinput hclimb
  cases level with
  | zero => exact absurd (Contents.Level.zero_iff.mp hl) hn
  | succ level => exact ⟨level + 1, by omega, hl⟩

/-- What is mapped on a level that is looked at is planned, unless it is an old input. -/
theorem mem_oldIds_of_level {replayer : Replayer} {level : Nat} (hi : contents.Identified)
    (hc : request.Collected contents cache closure)
    (hs : Replayer.Settled request cache (request.targets closure) replayer)
    (ho : request.oldOutput = none) (hmapped : replayer.substitutions.contains id = true)
    (hn : id ∉ request.oldInputs) (hle : level ≤ request.depth)
    (hl : contents.Level request.oldInputs level id) : id ∈ replayer.plan.oldIds :=
  hs.mem_oldIds_of_rests hmapped (hc.rests_of_level hi ho hle hl hn)

theorem below_of_mem_oldIds {replayer : Replayer} (hc : request.Collected contents cache closure)
    (hs : Replayer.Settled request cache (request.targets closure) replayer)
    (ho : request.oldOutput = none) (hid : id ∈ replayer.plan.oldIds) :
    id ∉ request.oldInputs ∧ ∃ input ∈ request.oldInputs, TransGen contents.Edge id input := by
  obtain ⟨_, _, hn, haffected⟩ := hs.mem_oldIds_iff.mp hid
  have hlone : ¬ request.Lone id := by simp [Lone, ho]
  obtain ⟨input, hinput, hpath⟩ := haffected.resolve_left hlone
  exact ⟨hn, input, hinput, TransGen.mono (fun _ _ hs => hc.mirrors.edge hs.2) _ _ hpath⟩

theorem exists_level_of_mem_oldIds {replayer : Replayer}
    (hc : request.Collected contents cache closure)
    (hs : Replayer.Settled request cache (request.targets closure) replayer)
    (ho : request.oldOutput = none) (hid : id ∈ replayer.plan.oldIds) :
    id ∉ request.oldInputs ∧ ∃ level, contents.Level request.oldInputs level id := by
  obtain ⟨hn, hbelow⟩ := below_of_mem_oldIds hc hs ho hid
  obtain ⟨level, _, hl⟩ := exists_level hn hbelow
  exact ⟨hn, level, hl⟩

/-- **Everything downstream** is planned by a replay without an output: each bundle once, all that
are on the levels 1 to `depth` below the old inputs, and only bundles below an old input that are
none.  If nothing is further down, these are all. -/
theorem replay_plans_descendants (supply : IdSupply) (store : Store) (request : Request)
    (hi : store.contents.Identified) (ha : store.contents.Acyclic)
    (hnamed : named = request.inIds store.contents) (ho : named.oldOutput = none)
    {replayed : Replayed}
    (hr : (request.replay.run (Store.handle supply) store).1 = .ok replayed) :
    (∀ entry ∈ replayed.plan, entry.old.id.isSome = true) ∧ replayed.plan.oldIds.Nodup ∧
      (∀ level id, 1 ≤ level → level ≤ named.depth →
        store.contents.Level named.oldInputs level id → id ∈ replayed.plan.oldIds) ∧
      (∀ id ∈ replayed.plan.oldIds, id ∉ named.oldInputs ∧
        ∃ input ∈ named.oldInputs, TransGen store.contents.Edge id input) ∧
      ((∀ id, ¬ store.contents.Level named.oldInputs (named.depth + 1) id) →
        ∀ id, id ∈ replayed.plan.oldIds ↔ id ∉ named.oldInputs ∧
          ∃ input ∈ named.oldInputs, TransGen store.contents.Edge id input) := by
  obtain ⟨cache, closure, replayer, hcourse, hsettled⟩ :=
    replay_settled supply store request hi ha hnamed hr
  have hc := hcourse.collected
  have hlevels : ∀ level id, 1 ≤ level → level ≤ named.depth →
      store.contents.Level named.oldInputs level id → id ∈ replayer.plan.oldIds := by
    intro level id hpos hle hl
    have hn : id ∉ named.oldInputs := by
      intro hinput
      have := hl.unique (Contents.Level.zero_iff.mpr hinput)
      omega
    exact mem_oldIds_of_level hi hc hsettled ho
      (hcourse.mapped id (hc.mem_targets_of_level ho hle hl)) hn hle hl
  have hbelow : ∀ id ∈ replayer.plan.oldIds, id ∉ named.oldInputs ∧
      ∃ input ∈ named.oldInputs, TransGen store.contents.Edge id input :=
    fun id => below_of_mem_oldIds hc hsettled ho
  rw [hcourse.plan]
  refine ⟨hsettled.isSome_old, hsettled.nodup, hlevels, hbelow, ?_⟩
  intro hempty id
  refine ⟨hbelow id, ?_⟩
  rintro ⟨hn, hpath⟩
  obtain ⟨level, hpos, hl⟩ := exists_level hn hpath
  rcases Nat.lt_or_ge named.depth level with hlt | hge
  · exact absurd hl (Contents.Level.not_of_lt hempty hlt)
  · exact hlevels level id hpos hge hl

/-- Of the diamond, everything below the raw data is planned. -/
theorem diamond_plans_descendants : ∃ replayed,
    ((diamond none).replay.run (Store.handle Stock.strokes) Store.diamond).1 = .ok replayed ∧
      (∀ level id, 1 ≤ level → level ≤ 10 →
        Store.diamond.contents.Level ["raw"] level id → id ∈ replayed.plan.oldIds) ∧
      ∀ id ∈ replayed.plan.oldIds, id ∉ ["raw"] ∧
        ∃ input ∈ ["raw"], TransGen Store.diamond.contents.Edge id input := by
  obtain ⟨replayed, hr⟩ := exists_replayed_diamond (.inl rfl)
  have hnamed : diamond none = (diamond none).inIds Store.diamond.contents := by decide
  have hordered : Store.diamond.contents.Ordered := by decide
  have h := replay_plans_descendants Stock.strokes Store.diamond (diamond none) (by decide)
    hordered.acyclic hnamed rfl hr
  exact ⟨replayed, hr, h.2.2.1, h.2.2.2.1⟩

end Request

end Provenance
