import Provenance.Proofs.Ancestors

/-!
# The descendants that are fetched

`Contents.fetchBundles` answers with the bundles that specs stand for and, level by level, with what
descends from them.  While the bundles of the store are gone through, ids are marked as seen; in a
store whose bundles have distinct ids this changes nothing for the rest of the level
(`mem_children`), so a level is exactly a `Contents.Level`, and its bundles stay in the order in which
they are stored (`Generation`).

* `exists_generations`: what is found below a level are the generations on the next levels.
* `mem_idsOf_of_fetchBundles`: what is fetched are the bundles of the levels up to the depth that is
  asked for.
-/

namespace Provenance

namespace Contents

variable {contents : Contents} {id : BundleId} {spec : String} {bundle : Bundle}

/-! ### What a spec stands for -/

/-- The id of the bundle that a spec stands for. -/
def idOf? (contents : Contents) (spec : String) : Option BundleId :=
  (contents.resolve? spec).bind Bundle.id

theorem mem_of_resolve? (h : contents.resolve? spec = some bundle) : bundle ∈ contents.bundles := by
  unfold resolve? at h
  split at h
  · rename_i found hf
    cases h
    exact (mem_of_bundle? hf).1
  · exact (List.mem_filter.mp (List.mem_of_getLast? h)).1

theorem mem_ids_of_idOf? (h : contents.idOf? spec = some id) : id ∈ contents.ids := by
  obtain ⟨bundle, hb, hid⟩ := Option.bind_eq_some_iff.mp h
  exact mem_ids.mpr ⟨bundle, mem_of_resolve? hb, hid⟩

theorem idOf?_of_mem_ids (h : id ∈ contents.ids) : contents.idOf? id = some id := by
  obtain ⟨bundle, hb⟩ := Option.isSome_iff_exists.mp (bundle?_isSome_iff.mpr h)
  have hr : contents.resolve? id = some bundle := by
    unfold resolve?
    rw [hb]
  rw [idOf?, hr]
  exact (mem_of_bundle? hb).2

theorem resolveAll_ok {seen : List BundleId} {specs : List String} {found : List Bundle}
    (h : contents.resolveAll seen specs = .ok found) :
    (∀ bundle ∈ found, bundle ∈ contents.bundles) ∧
      ∀ id, id ∈ found.filterMap Bundle.id ↔ id ∉ seen ∧ id ∈ specs.filterMap contents.idOf? := by
  induction specs generalizing seen found with
  | nil =>
      cases h
      simp
  | cons spec specs ih =>
      rw [resolveAll] at h
      split at h
      · cases h
      · rename_i bundle hb
        have hspec : contents.idOf? spec = bundle.id := by rw [idOf?, hb]; rfl
        rw [List.filterMap_cons, hspec]
        split at h
        · rename_i hid
          simp only [hid]
          exact ih h
        · rename_i own hid
          simp only [hid, List.mem_cons]
          split at h
          · rename_i hseen
            refine ⟨(ih h).1, ?_⟩
            intro id
            rw [(ih h).2]
            grind
          · rename_i hseen
            cases hr : contents.resolveAll (own :: seen) specs with
            | error error => rw [hr] at h; cases h
            | ok rest =>
                rw [hr] at h
                cases h
                obtain ⟨hmem, hids⟩ := ih hr
                refine ⟨?_, ?_⟩
                · intro other ho
                  rcases List.mem_cons.mp ho with rfl | ho
                  · exact mem_of_resolve? hb
                  · exact hmem other ho
                · intro id
                  simp only [List.filterMap_cons, hid, List.mem_cons, hids]
                  grind

/-! ### Level by level -/

theorem mem_children {generation seen : List BundleId} {bundles : List Bundle}
    (hn : (bundles.map Bundle.id).Nodup) :
    bundle ∈ children generation seen bundles ↔ bundle ∈ bundles ∧ ∃ id, bundle.id = some id ∧
      id ∉ seen ∧ ∃ parent ∈ bundle.parents, parent ∈ generation := by
  induction bundles generalizing seen with
  | nil => simp [children]
  | cons head rest ih =>
      obtain ⟨hhead, hrest⟩ := List.nodup_cons.mp hn
      rw [children]
      cases hid : head.id with
      | none =>
          simp only [ih hrest, List.mem_cons]
          grind
      | some own =>
          simp only
          split
          · rename_i hskip
            rw [ih hrest, List.mem_cons]
            simp only [List.any_eq_true, decide_eq_true_eq] at hskip
            grind
          · rename_i htake
            rw [List.mem_cons, ih hrest, List.mem_cons]
            simp only [List.any_eq_true, decide_eq_true_eq] at htake
            -- No other bundle has the id that is marked now.
            have hother : bundle ∈ rest → bundle.id ≠ some own := by
              intro hb he
              exact hhead (hid ▸ he ▸ List.mem_map_of_mem hb)
            grind

theorem children_sublist (generation seen : List BundleId) (bundles : List Bundle) :
    (children generation seen bundles).Sublist bundles := by
  induction bundles generalizing seen with
  | nil => exact .slnil
  | cons head rest ih =>
      rw [children]
      split
      · exact (ih seen).cons head
      · split
        · exact (ih seen).cons head
        · exact (ih _).cons_cons head

/-- What is right below a level and not on it or above is the next level. -/
theorem level_succ_iff {tops : List BundleId} {level : Nat} :
    contents.Level tops (level + 1) id ↔ (∀ above ≤ level, ¬ contents.Level tops above id) ∧
      ∃ parent, contents.Edge id parent ∧ contents.Level tops level parent := by
  constructor
  · intro h
    refine ⟨?_, h.exists_parent⟩
    intro above ha habove
    have := h.unique habove
    omega
  · rintro ⟨habove, parent, he, ⟨top, ht, hc⟩, _⟩
    obtain ⟨least, hle, hl⟩ := Level.exists_le ht (Climb.up he hc)
    rcases Nat.lt_or_ge level least with hlt | hge
    · obtain rfl : least = level + 1 := by omega
      exact hl
    · exact absurd hl (habove least hge)

/-- The bundles of one level below some others, in the order in which they are stored. -/
structure Generation (contents : Contents) (tops : List BundleId) (level : Nat)
    (members : List Bundle) : Prop where
  sublist : members.Sublist contents.bundles
  mem_iff : ∀ bundle, bundle ∈ members ↔ bundle ∈ contents.bundles ∧
    ∃ id, bundle.id = some id ∧ contents.Level tops level id

/-- The ids of a generation below others are those of its level: what is below something is stored. -/
theorem Generation.mem_ids_iff {tops : List BundleId} {level : Nat} {members : List Bundle}
    (h : contents.Generation tops (level + 1) members) :
    id ∈ members.filterMap Bundle.id ↔ contents.Level tops (level + 1) id := by
  rw [List.mem_filterMap]
  constructor
  · rintro ⟨bundle, hb, hid⟩
    obtain ⟨_, own, hown, hl⟩ := (h.mem_iff bundle).mp hb
    rw [hid] at hown
    cases hown
    exact hl
  · intro hl
    obtain ⟨parent, ⟨bundle, hb, hid, _⟩, _⟩ := hl.exists_parent
    exact ⟨bundle, (h.mem_iff bundle).mpr ⟨hb, id, hid, hl⟩, hid⟩

/-- The children of a level that were not seen above are the generation on the next level. -/
theorem children_generation (hi : contents.Identified) {tops : List BundleId} {level : Nat}
    {generation seen : List BundleId} (hg : ∀ id, id ∈ generation ↔ contents.Level tops level id)
    (hs : ∀ id, id ∈ seen ↔ ∃ above ≤ level, contents.Level tops above id) :
    contents.Generation tops (level + 1) (children generation seen contents.bundles) := by
  refine ⟨children_sublist generation seen contents.bundles, fun child => ?_⟩
  rw [mem_children hi.nodup]
  refine and_congr_right fun hc => exists_congr fun id => and_congr_right fun hid => ?_
  rw [level_succ_iff, hs]
  refine and_congr (by grind) (exists_congr fun parent => ?_)
  rw [hi.edge_iff hc hid, hg]

/-- What is found below a level are the generations on the next levels, one after the other. -/
theorem exists_generations (hi : contents.Identified) {tops : List BundleId} (depth : Nat)
    {level : Nat} {generation seen : List BundleId}
    (hg : ∀ id, id ∈ generation ↔ contents.Level tops level id)
    (hs : ∀ id, id ∈ seen ↔ ∃ above ≤ level, contents.Level tops above id) :
    ∃ generations : List (List Bundle),
      contents.descendants depth generation seen = generations.flatten ∧
      generations.length = depth ∧ ∀ n members, generations[n]? = some members →
        contents.Generation tops (level + n + 1) members := by
  induction depth generalizing level generation seen with
  | zero => exact ⟨[], rfl, rfl, nofun⟩
  | succ depth ih =>
      have hnext := children_generation hi hg hs
      simp only [descendants]
      split
      · rename_i hnil
        refine ⟨List.replicate (depth + 1) [], by simp, List.length_replicate, ?_⟩
        intro n members hn
        obtain rfl := (List.mem_replicate.mp (List.mem_of_getElem? hn)).2
        have hempty : ∀ id, ¬ contents.Level tops (level + 1) id := by
          intro id hl
          have hmem := hnext.mem_ids_iff.mpr hl
          rw [hnil] at hmem
          cases hmem
        refine ⟨List.nil_sublist _, fun bundle => ⟨nofun, ?_⟩⟩
        rintro ⟨_, id, _, hl⟩
        exact absurd hl (Level.not_of_lt hempty (by omega))
      · have hseen : ∀ id,
            id ∈ (children generation seen contents.bundles).filterMap Bundle.id ++ seen ↔
              ∃ above ≤ level + 1, contents.Level tops above id := by
          intro id
          rw [List.mem_append, hnext.mem_ids_iff, hs]
          constructor
          · rintro (hl | ⟨above, ha, hl⟩)
            · exact ⟨level + 1, by omega, hl⟩
            · exact ⟨above, by omega, hl⟩
          · rintro ⟨above, ha, hl⟩
            rcases Nat.lt_or_ge level above with hlt | hge
            · obtain rfl : above = level + 1 := by omega
              exact .inl hl
            · exact .inr ⟨above, hge, hl⟩
        obtain ⟨generations, hflat, hlength, hgen⟩ := ih (fun id => hnext.mem_ids_iff) hseen
        refine ⟨_ :: generations, by rw [hflat]; rfl, by rw [List.length_cons, hlength], ?_⟩
        intro n members hn
        cases n with
        | zero =>
            cases hn
            exact hnext
        | succ n =>
            have hmembers := hgen n members hn
            rwa [Nat.add_right_comm level 1 n] at hmembers

theorem mem_descendants (hi : contents.Identified) {tops : List BundleId} (depth : Nat)
    {level : Nat} {generation seen : List BundleId}
    (hg : ∀ id, id ∈ generation ↔ contents.Level tops level id)
    (hs : ∀ id, id ∈ seen ↔ ∃ above ≤ level, contents.Level tops above id) :
    bundle ∈ contents.descendants depth generation seen ↔ bundle ∈ contents.bundles ∧
      ∃ id, bundle.id = some id ∧
        ∃ below, level < below ∧ below ≤ level + depth ∧ contents.Level tops below id := by
  obtain ⟨generations, hflat, hlength, hgen⟩ := exists_generations hi depth hg hs
  rw [hflat, List.mem_flatten]
  constructor
  · rintro ⟨members, hmembers, hb⟩
    obtain ⟨n, hn⟩ := List.mem_iff_getElem?.mp hmembers
    have hlt := (List.getElem?_eq_some_iff.mp hn).1
    obtain ⟨hstored, id, hid, hl⟩ := ((hgen n members hn).mem_iff bundle).mp hb
    exact ⟨hstored, id, hid, level + n + 1, by omega, by omega, hl⟩
  · rintro ⟨hstored, id, hid, below, hlt, hle, hl⟩
    obtain ⟨n, rfl⟩ : ∃ n, below = level + n + 1 := ⟨below - level - 1, by omega⟩
    have hn : n < generations.length := by omega
    refine ⟨generations[n], List.getElem_mem hn, ?_⟩
    have hmembers := hgen n _ (List.getElem?_eq_getElem hn)
    exact (hmembers.mem_iff bundle).mpr ⟨hstored, id, hid, hl⟩

/-! ### What is fetched -/

variable {specs : List String} {depth : Option Nat} {found : List Bundle}

/-- What is fetched is what the specs stand for, and what descends from it. -/
theorem exists_of_fetchBundles (h : contents.fetchBundles specs depth = .ok found) :
    ∃ resolved, contents.resolveAll [] specs = .ok resolved ∧
      found = (resolved ++ contents.descendants (depth.getD 0) (resolved.filterMap Bundle.id)
        (resolved.filterMap Bundle.id)).map Bundle.explained := by
  unfold fetchBundles at h
  cases hr : contents.resolveAll [] specs with
  | error error => rw [hr] at h; cases h
  | ok resolved =>
      rw [hr] at h
      cases h
      exact ⟨resolved, rfl, rfl⟩

theorem mem_descendants_of_resolveAll (hi : contents.Identified) {resolved : List Bundle}
    (hr : contents.resolveAll [] specs = .ok resolved) (depth : Nat) :
    bundle ∈ contents.descendants depth (resolved.filterMap Bundle.id)
        (resolved.filterMap Bundle.id) ↔
      bundle ∈ contents.bundles ∧ ∃ id, bundle.id = some id ∧ ∃ level, 0 < level ∧ level ≤ depth ∧
        contents.Level (specs.filterMap contents.idOf?) level id := by
  have hg : ∀ id, id ∈ resolved.filterMap Bundle.id ↔
      contents.Level (specs.filterMap contents.idOf?) 0 id := by
    intro id
    rw [(resolveAll_ok hr).2, Level.zero_iff]
    simp
  have hs : ∀ id, id ∈ resolved.filterMap Bundle.id ↔
      ∃ above ≤ 0, contents.Level (specs.filterMap contents.idOf?) above id := by
    intro id
    rw [hg]
    simp
  simpa only [Nat.zero_add] using mem_descendants hi depth hg hs

theorem mem_of_mem_descendants (depth : Nat) {generation seen : List BundleId}
    (h : bundle ∈ contents.descendants depth generation seen) : bundle ∈ contents.bundles := by
  induction depth generalizing generation seen with
  | zero => cases h
  | succ depth ih =>
      simp only [descendants] at h
      split at h
      · cases h
      · rcases List.mem_append.mp h with h | h
        · exact (children_sublist _ _ _).mem h
        · exact ih h

theorem mem_of_fetchBundles (h : contents.fetchBundles specs depth = .ok found) :
    ∀ bundle ∈ found, ∃ stored ∈ contents.bundles, bundle = stored.explained := by
  obtain ⟨resolved, hr, rfl⟩ := exists_of_fetchBundles h
  intro bundle hb
  obtain ⟨stored, hs, rfl⟩ := List.mem_map.mp hb
  refine ⟨stored, ?_, rfl⟩
  rcases List.mem_append.mp hs with hs | hs
  · exact (resolveAll_ok hr).1 stored hs
  · exact mem_of_mem_descendants _ hs

/-- **What is fetched**: the levels below the bundles that the specs stand for, as far down as is
asked for. -/
theorem mem_idsOf_of_fetchBundles (hi : contents.Identified)
    (h : contents.fetchBundles specs depth = .ok found) :
    id ∈ Cache.idsOf found ↔ ∃ level ≤ depth.getD 0,
      contents.Level (specs.filterMap contents.idOf?) level id := by
  obtain ⟨resolved, hr, rfl⟩ := exists_of_fetchBundles h
  have hids : id ∈ Cache.idsOf ((resolved ++ contents.descendants (depth.getD 0)
      (resolved.filterMap Bundle.id) (resolved.filterMap Bundle.id)).map Bundle.explained) ↔
      id ∈ resolved.filterMap Bundle.id ∨ ∃ bundle ∈ contents.descendants (depth.getD 0)
        (resolved.filterMap Bundle.id) (resolved.filterMap Bundle.id), bundle.id = some id := by
    rw [Cache.idsOf, List.mem_eraseDups, List.filterMap_map, List.filterMap_append,
      List.mem_append, List.mem_filterMap, List.mem_filterMap, List.mem_filterMap]
    rfl
  rw [hids, (resolveAll_ok hr).2]
  constructor
  · rintro (⟨_, hid⟩ | ⟨bundle, hb, hid⟩)
    · exact ⟨0, Nat.zero_le _, Level.zero_iff.mpr hid⟩
    · obtain ⟨_, own, hown, level, _, hle, hl⟩ := (mem_descendants_of_resolveAll hi hr _).mp hb
      rw [hid] at hown
      cases hown
      exact ⟨level, hle, hl⟩
  · rintro ⟨level, hle, hl⟩
    cases level with
    | zero => exact .inl ⟨by simp, Level.zero_iff.mp hl⟩
    | succ level =>
        obtain ⟨parent, ⟨bundle, hb, hid, hp⟩, _⟩ := hl.exists_parent
        refine .inr ⟨bundle, (mem_descendants_of_resolveAll hi hr _).mpr ⟨hb, id, hid, ?_⟩, hid⟩
        exact ⟨level + 1, by omega, hle, hl⟩

end Contents

end Provenance
