import Mathlib.Data.List.Nodup
import Mathlib.Data.Nat.Find
import Mathlib.Data.Nat.Init
import Mathlib.Logic.Relation
import Provenance.Replay.Cache
import Provenance.Store.Basic

/-!
# The provenance graph

An edge of the provenance graph leads from a child up to one of its parents.  `Contents.Edge` is the
graph of what is stored, `Cache.Edge` the part of it that a replay has fetched.

`Climb edge n id top` says that `n` edges lead up from `id` to `top`, and `Contents.Level` measures
how far a bundle is below some others.  A bundle of level `k + 1` has a parent of level `k`
(`Level.exists_parent`), so no level is empty between two that are not.
-/

namespace Provenance

/-- So many edges lead up from an id to another. -/
inductive Climb (edge : BundleId → BundleId → Prop) : Nat → BundleId → BundleId → Prop
  | here (id : BundleId) : Climb edge 0 id id
  | up {n : Nat} {child parent top : BundleId} :
      edge child parent → Climb edge n parent top → Climb edge (n + 1) child top

namespace Climb

variable {edge : BundleId → BundleId → Prop} {n : Nat} {id middle top : BundleId}

theorem snoc (h : Climb edge n id middle) (he : edge middle top) : Climb edge (n + 1) id top := by
  induction h with
  | here id => exact .up he (.here top)
  | up hc _ ih => exact .up hc (ih he)

theorem exists_of_succ (h : Climb edge (n + 1) id top) :
    ∃ middle, Climb edge n id middle ∧ edge middle top := by
  induction n generalizing id with
  | zero =>
      obtain _ | ⟨he, hc⟩ := h
      cases hc
      exact ⟨id, .here id, he⟩
  | succ n ih =>
      obtain _ | ⟨he, hc⟩ := h
      obtain ⟨middle, hm, ht⟩ := ih hc
      exact ⟨middle, .up he hm, ht⟩

end Climb

theorem exists_climb_of_reflTransGen {edge : BundleId → BundleId → Prop} {id top : BundleId}
    (h : Relation.ReflTransGen edge id top) : ∃ n, Climb edge n id top := by
  induction h using Relation.ReflTransGen.head_induction_on with
  | refl => exact ⟨0, .here top⟩
  | head he _ ih =>
      obtain ⟨n, hn⟩ := ih
      exact ⟨n + 1, .up he hn⟩

/-! ### What is stored -/

namespace Contents

/-- The ids of the bundles. -/
def ids (contents : Contents) : List BundleId :=
  contents.bundles.filterMap Bundle.id

/-- The ids that occur: those of the bundles, and those that they name as parents. -/
def mentioned (contents : Contents) : List BundleId :=
  contents.ids ++ contents.bundles.flatMap Bundle.parents

/-- Every bundle has an id, and no two have the same. -/
structure Identified (contents : Contents) : Prop where
  isSome : ∀ bundle ∈ contents.bundles, bundle.id.isSome = true
  nodup : (contents.bundles.map Bundle.id).Nodup

/-- A stored bundle has a parent. -/
def Edge (contents : Contents) (child parent : BundleId) : Prop :=
  ∃ bundle ∈ contents.bundles, bundle.id = some child ∧ parent ∈ bundle.parents

/-- No bundle is above itself. -/
def Acyclic (contents : Contents) : Prop :=
  ∀ id, ¬ Relation.TransGen contents.Edge id id

/-- The least number of edges that lead up from a bundle to one of some others. -/
def Level (contents : Contents) (tops : List BundleId) (level : Nat) (id : BundleId) : Prop :=
  (∃ top ∈ tops, Climb contents.Edge level id top) ∧
    ∀ less < level, ¬ ∃ top ∈ tops, Climb contents.Edge less id top

variable {contents : Contents} {id child parent : BundleId} {bundle : Bundle}

theorem mem_ids : id ∈ contents.ids ↔ ∃ bundle ∈ contents.bundles, bundle.id = some id :=
  List.mem_filterMap

theorem mentioned_of_mem_ids (h : id ∈ contents.ids) : id ∈ contents.mentioned :=
  List.mem_append_left _ h

theorem mentioned_of_mem_bundles (hb : bundle ∈ contents.bundles) (hid : bundle.id = some id) :
    id ∈ contents.mentioned :=
  mentioned_of_mem_ids (mem_ids.mpr ⟨bundle, hb, hid⟩)

theorem mentioned_of_mem_parents (hb : bundle ∈ contents.bundles) (hp : parent ∈ bundle.parents) :
    parent ∈ contents.mentioned :=
  List.mem_append_right _ (List.mem_flatMap.mpr ⟨bundle, hb, hp⟩)

theorem mentioned_of_edge (h : contents.Edge child parent) : parent ∈ contents.mentioned := by
  obtain ⟨bundle, hb, _, hp⟩ := h
  exact mentioned_of_mem_parents hb hp

theorem mem_of_bundle? (h : contents.bundle? id = some bundle) :
    bundle ∈ contents.bundles ∧ bundle.id = some id :=
  ⟨List.mem_of_find?_eq_some h, by simpa using List.find?_some h⟩

theorem bundle?_isSome_iff : (contents.bundle? id).isSome = true ↔ id ∈ contents.ids := by
  simp [bundle?, mem_ids]

theorem bundle?_eq_none_iff : contents.bundle? id = none ↔ id ∉ contents.ids := by
  rw [← bundle?_isSome_iff, Option.not_isSome_iff_eq_none]

/-- Distinct ids tell bundles apart, also when some have none. -/
theorem eq_of_nodup_ids (h : contents.ids.Nodup) {other : Bundle} (hb : bundle ∈ contents.bundles)
    (ho : other ∈ contents.bundles) (hid : bundle.id = some id) (hoid : other.id = some id) :
    bundle = other := by
  have hpair := List.pairwise_iff_getElem.mp (List.pairwise_filterMap.mp h)
  obtain ⟨m, hm, rfl⟩ := List.getElem_of_mem hb
  obtain ⟨n, hn, rfl⟩ := List.getElem_of_mem ho
  rcases Nat.lt_trichotomy m n with hlt | rfl | hgt
  · exact absurd rfl (hpair m n hm hn hlt id hid id hoid)
  · rfl
  · exact absurd rfl (hpair n m hn hm hgt id hoid id hid)

theorem edge_iff_of_nodup_ids (h : contents.ids.Nodup) (hb : bundle ∈ contents.bundles)
    (hid : bundle.id = some child) : contents.Edge child parent ↔ parent ∈ bundle.parents := by
  constructor
  · rintro ⟨other, ho, hoid, hp⟩
    rwa [eq_of_nodup_ids h hb ho hid hoid]
  · intro hp
    exact ⟨bundle, hb, hid, hp⟩

namespace Identified

theorem nodup_ids (h : contents.Identified) : contents.ids.Nodup := by
  refine List.pairwise_filterMap.mpr ((List.pairwise_map.mp h.nodup).imp ?_)
  intro bundle other hne id hid id' hid' he
  exact hne (hid.trans ((congrArg some he).trans hid'.symm))

theorem eq_of_id (h : contents.Identified) {other : Bundle} (hb : bundle ∈ contents.bundles)
    (ho : other ∈ contents.bundles) (he : bundle.id = other.id) : bundle = other :=
  List.inj_on_of_nodup_map h.nodup hb ho he

theorem edge_iff (h : contents.Identified) (hb : bundle ∈ contents.bundles)
    (hid : bundle.id = some child) : contents.Edge child parent ↔ parent ∈ bundle.parents :=
  edge_iff_of_nodup_ids h.nodup_ids hb hid

end Identified

/-! ### One more bundle -/

theorem ids_append {after : Contents} {made : Bundle}
    (hb : after.bundles = contents.bundles ++ [made]) (hid : made.id = some id) :
    after.ids = contents.ids ++ [id] := by
  rw [ids, ids, hb, List.filterMap_append]
  simp [hid]

theorem mem_mentioned_append {after : Contents} {made : Bundle} {other : BundleId}
    (hb : after.bundles = contents.bundles ++ [made]) (hid : made.id = some id) :
    other ∈ after.mentioned ↔
      other ∈ contents.mentioned ∨ other = id ∨ other ∈ made.parents := by
  rw [mentioned, mentioned, ids_append hb hid, hb]
  simp only [List.flatMap_append, List.flatMap_singleton, List.mem_append, List.mem_singleton]
  tauto

/-- A bundle under a new id keeps ids distinct. -/
theorem Identified.append (h : contents.Identified) {after : Contents} {made : Bundle}
    (hb : after.bundles = contents.bundles ++ [made]) (hid : made.id = some id)
    (hn : id ∉ contents.ids) : after.Identified := by
  refine ⟨?_, ?_⟩
  · intro bundle hmem
    rw [hb, List.mem_append, List.mem_singleton] at hmem
    rcases hmem with hmem | rfl
    · exact h.isSome bundle hmem
    · rw [hid]
      rfl
  · rw [hb, List.map_append, List.nodup_append]
    refine ⟨h.nodup, List.nodup_singleton _, ?_⟩
    intro own hown other hother he
    obtain ⟨bundle, hmem, hbundle⟩ := List.mem_map.mp hown
    have hother : other = made.id := List.mem_singleton.mp hother
    have hsame : bundle.id = some id := by rw [hbundle, he, hother, hid]
    exact hn (mem_ids.mpr ⟨bundle, hmem, hsame⟩)

/-- A bundle that no bundle names as a parent closes no cycle. -/
theorem Acyclic.append (h : contents.Acyclic) {after : Contents} {made : Bundle}
    (hb : after.bundles = contents.bundles ++ [made]) (hid : made.id = some id)
    (hn : ∀ bundle ∈ after.bundles, id ∉ bundle.parents) : after.Acyclic := by
  have hparent : ∀ child parent, after.Edge child parent → parent ≠ id := by
    rintro child parent ⟨bundle, hmem, _, hp⟩ rfl
    exact hn bundle hmem hp
  have hbefore : ∀ child parent, after.Edge child parent → child ≠ id →
      contents.Edge child parent := by
    rintro child parent ⟨bundle, hmem, hown, hp⟩ hne
    rw [hb, List.mem_append, List.mem_singleton] at hmem
    rcases hmem with hmem | rfl
    · exact ⟨bundle, hmem, hown, hp⟩
    · exact absurd (Option.some.inj (hown.symm.trans hid)) hne
  have hpath : ∀ child top, Relation.TransGen after.Edge child top → child ≠ id →
      Relation.TransGen contents.Edge child top := by
    intro child top hpath
    induction hpath using Relation.TransGen.head_induction_on with
    | single he => exact fun hne => .single (hbefore _ _ he hne)
    | head he _ ih => exact fun hne => .head (hbefore _ _ he hne) (ih (hparent _ _ he))
  intro other hcycle
  obtain ⟨below, _, hlast⟩ := Relation.TransGen.tail'_iff.mp hcycle
  exact h other (hpath other other hcycle (hparent below other hlast))

/-- Going up the edges of a graph without cycles comes to an end: ever fewer bundles are left above. -/
theorem Acyclic.wellFounded (h : contents.Acyclic) :
    WellFounded fun parent child => contents.Edge child parent := by
  classical
  let reached : BundleId → List BundleId := fun id =>
    contents.ids.filter fun other => Relation.ReflTransGen contents.Edge id other
  refine Subrelation.wf ?_ (measure fun id => (reached id).length).wf
  intro parent child he
  have hsub : reached parent =
      (reached child).filter fun other => Relation.ReflTransGen contents.Edge parent other := by
    simp only [reached, List.filter_filter]
    refine List.filter_congr fun other _ => ?_
    rw [← Bool.decide_and, decide_eq_decide]
    exact ⟨fun hp => ⟨hp, .head he hp⟩, And.left⟩
  have hchild : child ∈ contents.ids := by
    obtain ⟨bundle, hb, hid, _⟩ := he
    exact mem_ids.mpr ⟨bundle, hb, hid⟩
  change (reached parent).length < (reached child).length
  rw [hsub, List.length_filter_lt_length_iff_exists]
  refine ⟨child, List.mem_filter.mpr ⟨hchild, decide_eq_true .refl⟩, ?_⟩
  rw [decide_eq_true_eq]
  exact fun hp => h child (.head' he hp)

/-! ### Levels -/

namespace Level

variable {tops : List BundleId} {level : Nat}

theorem zero_iff : contents.Level tops 0 id ↔ id ∈ tops := by
  constructor
  · rintro ⟨⟨top, ht, hc⟩, _⟩
    cases hc
    exact ht
  · intro h
    exact ⟨⟨id, h, .here id⟩, by omega⟩

/-- A bundle that is not on the lowest level is right below one of the level above. -/
theorem exists_parent (h : contents.Level tops (level + 1) id) :
    ∃ parent, contents.Edge id parent ∧ contents.Level tops level parent := by
  obtain ⟨⟨top, ht, hc⟩, hmin⟩ := h
  obtain _ | ⟨he, hc⟩ := hc
  refine ⟨_, he, ⟨top, ht, hc⟩, ?_⟩
  rintro less hless ⟨top', ht', hc'⟩
  exact hmin (less + 1) (by omega) ⟨top', ht', .up he hc'⟩

theorem unique {level' : Nat} (h : contents.Level tops level id) (h' : contents.Level tops level' id) :
    level = level' := by
  rcases Nat.lt_trichotomy level level' with hlt | heq | hgt
  · exact absurd h.1 (h'.2 level hlt)
  · exact heq
  · exact absurd h'.1 (h.2 level' hgt)

/-- What is below some bundles has a level, and no more than any number of edges says. -/
theorem exists_le {top : BundleId} (ht : top ∈ tops) (hc : Climb contents.Edge level id top) :
    ∃ least ≤ level, contents.Level tops least id := by
  classical
  have hreached : ∃ n, ∃ top ∈ tops, Climb contents.Edge n id top := ⟨level, top, ht, hc⟩
  refine ⟨Nat.find hreached, ?_, Nat.find_spec hreached, fun less => Nat.find_min hreached⟩
  exact Nat.find_le ⟨top, ht, hc⟩

theorem not_of_lt {empty : Nat} (he : ∀ id, ¬ contents.Level tops empty id) (hlt : empty ≤ level) :
    ¬ contents.Level tops level id := by
  induction level, hlt using Nat.le_induction generalizing id with
  | base => exact he id
  | succ level _ ih =>
      intro h
      obtain ⟨parent, _, hp⟩ := h.exists_parent
      exact ih hp

end Level

end Contents

/-! ### Bundles stored after their parents -/

namespace Contents

/-- Every bundle is stored behind all its parents. -/
def Ordered (contents : Contents) : Prop :=
  ∀ bundle ∈ contents.bundles, ∀ id ∈ bundle.id, ∀ parent ∈ bundle.parents,
    contents.ids.idxOf parent < contents.ids.idxOf id

instance (contents : Contents) : Decidable contents.Ordered :=
  inferInstanceAs (Decidable (∀ bundle ∈ contents.bundles, ∀ id ∈ bundle.id,
    ∀ parent ∈ bundle.parents, contents.ids.idxOf parent < contents.ids.idxOf id))

theorem identified_iff {contents : Contents} : contents.Identified ↔
    (∀ bundle ∈ contents.bundles, bundle.id.isSome = true) ∧
      (contents.bundles.map Bundle.id).Nodup :=
  ⟨fun h => ⟨h.isSome, h.nodup⟩, fun h => ⟨h.1, h.2⟩⟩

instance (contents : Contents) : Decidable contents.Identified :=
  decidable_of_iff _ identified_iff.symm

namespace Ordered

variable {contents : Contents} {id parent top : BundleId}

theorem idxOf_lt (h : contents.Ordered) (he : contents.Edge id parent) :
    contents.ids.idxOf parent < contents.ids.idxOf id := by
  obtain ⟨bundle, hb, hid, hp⟩ := he
  exact h bundle hb id hid parent hp

/-- An ancestor is at most as many edges up as there are bundles stored between. -/
theorem exists_climb (h : contents.Ordered) (hp : Relation.TransGen contents.Edge id top) :
    ∃ n, 0 < n ∧ Climb contents.Edge n id top ∧
      contents.ids.idxOf top + n ≤ contents.ids.idxOf id := by
  induction hp using Relation.TransGen.head_induction_on with
  | single he =>
      have := h.idxOf_lt he
      exact ⟨1, by omega, .up he (.here top), by omega⟩
  | head he _ ih =>
      obtain ⟨n, _, hc, hn⟩ := ih
      have := h.idxOf_lt he
      exact ⟨n + 1, by omega, .up he hc, by omega⟩

theorem acyclic (h : contents.Ordered) : contents.Acyclic := by
  intro id hid
  obtain ⟨n, hpos, _, hn⟩ := h.exists_climb hid
  omega

end Ordered

end Contents

/-- A bundle that mounts each of some parents. -/
def Bundle.mounting (kind : BundleKind) (id : BundleId) (command : Option String)
    (parents : List BundleId) : Bundle :=
  { Bundle.ofName kind id with
    id := some id
    command := command
    dependencies := parents.map fun parent => ⟨parent, "", id, "in"⟩ }

/-- A store with some bundles, and a worksheet to put new ones on. -/
def Store.ofBundles (bundles : List Bundle) : Store :=
  .ofContents ⟨none, bundles, [⟨"w", "work", none, []⟩]⟩

/-- A store in which what is trained uses the raw data both directly and prepared. -/
def Store.diamond : Store :=
  .ofBundles [.mounting .dataset "raw" none [], .mounting .dataset "fix" none [],
    .mounting .run "prep" (some "prep") ["raw"], .mounting .run "train" (some "train") ["prep", "raw"],
    .mounting .run "eval" (some "eval") ["train"]]

/-- A store in which three bundles mount each other in a ring, and one of them also something that
is not stored. -/
def Store.ring : Store :=
  .ofBundles [.mounting .run "a" (some "a") ["b"], .mounting .run "b" (some "b") ["c"],
    .mounting .run "c" (some "c") ["a", "lost"]]

/-! ### What is fetched -/

namespace Cache

/-- A fetched bundle has a parent. -/
def Edge (cache : Cache) (child parent : BundleId) : Prop :=
  ∃ bundle, cache.get? child = some bundle ∧ parent ∈ bundle.parents

/-- Every bundle is cached under its own id. -/
def Keyed (cache : Cache) : Prop :=
  ∀ id bundle, cache.get? id = some bundle → bundle.id = some id

/-- Every cached bundle is a stored one, with its state explained. -/
def Mirrors (cache : Cache) (contents : Contents) : Prop :=
  ∀ id bundle, cache.get? id = some bundle →
    ∃ stored ∈ contents.bundles, stored.id = some id ∧ bundle = stored.explained

/-- No cached bundle is above itself. -/
def Acyclic (cache : Cache) : Prop :=
  ∀ id, ¬ Relation.TransGen cache.Edge id id

variable {cache : Cache} {contents : Contents} {child parent : BundleId}

theorem Mirrors.keyed (h : cache.Mirrors contents) : cache.Keyed := by
  intro id bundle hb
  obtain ⟨stored, _, hid, rfl⟩ := h id bundle hb
  exact hid

theorem Mirrors.edge (h : cache.Mirrors contents) (he : cache.Edge child parent) :
    contents.Edge child parent := by
  obtain ⟨bundle, hb, hp⟩ := he
  obtain ⟨stored, hs, hid, rfl⟩ := h child bundle hb
  exact ⟨stored, hs, hid, hp⟩

theorem Mirrors.acyclic (h : cache.Mirrors contents) (hc : contents.Acyclic) : cache.Acyclic :=
  fun id hid => hc id (Relation.TransGen.mono (fun _ _ => h.edge) id id hid)

/-- A stored edge is cached if its child is. -/
theorem Mirrors.edge_of_contains (h : cache.Mirrors contents) (hi : contents.Identified)
    (hc : cache.contains child = true) (he : contents.Edge child parent) : cache.Edge child parent := by
  obtain ⟨bundle, hb⟩ := Option.isSome_iff_exists.mp hc
  obtain ⟨stored, hs, hid, rfl⟩ := h child bundle hb
  exact ⟨_, hb, (hi.edge_iff hs hid).mp he⟩

theorem get?_extend (cache : Cache) (bundles : List Bundle) (id : BundleId) :
    (cache.extend bundles).get? id =
      (cache.get? id).or (bundles.find? fun bundle => bundle.id = some id) := by
  induction bundles generalizing cache with
  | nil => simp [extend]
  | cons bundle bundles ih =>
      rw [List.find?_cons]
      cases hb : bundle.id with
      | none =>
          have hstep : cache.extend (bundle :: bundles) = cache.extend bundles := by
            simp [extend, hb]
          rw [hstep, ih]
          simp
      | some own =>
          have hstep : cache.extend (bundle :: bundles) = extend (cache.add own bundle) bundles := by
            simp [extend, hb]
          rw [hstep, ih, Register.get?_add]
          by_cases ho : own = id
          · subst ho
            cases cache.get? own <;> simp
          · simp [ho, Ne.symm ho]

theorem get?_ofBundles (bundles : List Bundle) (id : BundleId) :
    (ofBundles bundles).get? id = bundles.find? fun bundle => bundle.id = some id := by
  rw [ofBundles, get?_extend, Register.get?_empty, Option.none_or]

theorem Keyed.extend (h : cache.Keyed) (bundles : List Bundle) : (cache.extend bundles).Keyed := by
  intro id bundle hb
  rw [get?_extend, Option.or_eq_some_iff] at hb
  rcases hb with hb | ⟨_, hb⟩
  · exact h id bundle hb
  · simpa using List.find?_some hb

theorem keyed_ofBundles (bundles : List Bundle) : (ofBundles bundles).Keyed := by
  refine Keyed.extend ?_ bundles
  intro id bundle hb
  rw [Register.get?_empty] at hb
  cases hb

end Cache

end Provenance
