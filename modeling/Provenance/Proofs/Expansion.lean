import Provenance.Proofs.Descendants
import Provenance.Proofs.Trace

/-!
# The bundles that specs expand to

A store answers a list of specs with the bundles that they stand for, each once and in the order of
the specs, and behind these with generation after generation of their descendants.
`Contents.StandsFor` says what a spec stands for: the bundle under this id, or else the latest of
this name.

Main statement: `Store.fetchBundles_expands`, for every graph in which the bundles have distinct
ids.
-/

namespace Provenance

/-- The last element with a property: what comes after it does not have it. -/
theorem getLast?_filter_eq_some_iff {α : Type} {p : α → Bool} {elements : List α} {last : α} :
    (elements.filter p).getLast? = some last ↔ p last = true ∧ ∃ earlier later,
      elements = earlier ++ last :: later ∧ ∀ other ∈ later, ¬ p other = true := by
  -- It is the first one when the elements are read backwards.
  rw [List.getLast?_filter, List.find?_eq_some_iff_append]
  refine and_congr_right fun _ => ?_
  constructor
  · rintro ⟨later, earlier, hreverse, hl⟩
    refine ⟨earlier.reverse, later.reverse, ?_, fun other ho => ?_⟩
    · rw [← List.reverse_reverse elements, hreverse]
      simp
    · simpa using hl other (List.mem_reverse.mp ho)
  · rintro ⟨earlier, later, rfl, hl⟩
    refine ⟨later.reverse, earlier.reverse, by simp, fun other ho => ?_⟩
    simpa using hl other (List.mem_reverse.mp ho)

namespace Contents

variable {contents : Contents} {spec : String} {bundle other : Bundle} {id : BundleId}

/-! ### One spec -/

/-- A stored bundle has the spec as its id or as its name. -/
def Known (contents : Contents) (spec : String) : Prop :=
  ∃ bundle ∈ contents.bundles, bundle.id = some spec ∨ bundle.name = spec

instance (contents : Contents) (spec : String) : Decidable (contents.Known spec) :=
  inferInstanceAs (Decidable (∃ bundle ∈ contents.bundles, _ ∨ _))

/-- The bundle that a spec stands for. -/
inductive StandsFor (contents : Contents) (spec : String) : Bundle → Prop
  /-- The one under this id. -/
  | id {bundle : Bundle} (hb : bundle ∈ contents.bundles) (hid : bundle.id = some spec) :
      StandsFor contents spec bundle
  /-- The latest of this name, if there is none under this id. -/
  | name {bundle : Bundle} {earlier later : List Bundle} (hn : spec ∉ contents.ids)
      (hb : contents.bundles = earlier ++ bundle :: later) (hname : bundle.name = spec)
      (hl : ∀ other ∈ later, other.name ≠ spec) : StandsFor contents spec bundle

theorem StandsFor.mem (h : contents.StandsFor spec bundle) : bundle ∈ contents.bundles := by
  cases h with
  | id hb hid => exact hb
  | name hn hb hname hl =>
      rw [hb]
      exact List.mem_append_right _ List.mem_cons_self

theorem resolve?_eq_some_iff (hi : contents.Identified) :
    contents.resolve? spec = some bundle ↔ contents.StandsFor spec bundle := by
  unfold resolve?
  cases hid : contents.bundle? spec with
  | some found =>
      obtain ⟨hmem, hown⟩ := mem_of_bundle? hid
      constructor
      · rintro ⟨⟩
        exact .id hmem hown
      · intro h
        cases h with
        | id hb hbid => rw [hi.eq_of_id hmem hb (hown.trans hbid.symm)]
        | name hn => exact absurd (mem_ids.mpr ⟨found, hmem, hown⟩) hn
  | none =>
      have hn := bundle?_eq_none_iff.mp hid
      simp only [getLast?_filter_eq_some_iff, decide_eq_true_eq]
      constructor
      · rintro ⟨hname, earlier, later, hb, hl⟩
        exact .name hn hb hname hl
      · intro h
        cases h with
        | id hb hbid => exact absurd (mem_ids.mpr ⟨bundle, hb, hbid⟩) hn
        | name _ hb hname hl => exact ⟨hname, _, _, hb, hl⟩

theorem resolve?_eq_none_iff : contents.resolve? spec = none ↔ ¬ contents.Known spec := by
  unfold resolve?
  split
  · rename_i found hfound
    obtain ⟨hmem, hid⟩ := mem_of_bundle? hfound
    exact ⟨nofun, fun hn => absurd ⟨found, hmem, .inl hid⟩ hn⟩
  · rename_i hnone
    rw [List.getLast?_eq_none_iff, List.filter_eq_nil_iff]
    constructor
    · rintro hnames ⟨bundle, hb, hid | hname⟩
      · exact bundle?_eq_none_iff.mp hnone (mem_ids.mpr ⟨bundle, hb, hid⟩)
      · exact hnames bundle hb (decide_eq_true hname)
    · intro hn bundle hb hname
      exact hn ⟨bundle, hb, .inr (of_decide_eq_true hname)⟩

/-! ### All specs -/

theorem resolveAll_error {specs : List String} {seen : List BundleId}
    (h : (specs.find? fun spec => ¬ contents.Known spec) = some spec) :
    contents.resolveAll seen specs = .error (.noMatch spec) := by
  induction specs generalizing seen with
  | nil => cases h
  | cons first specs ih =>
      rw [List.find?_cons] at h
      rw [resolveAll]
      cases hr : contents.resolve? first with
      | none =>
          rw [decide_eq_true (resolve?_eq_none_iff.mp hr)] at h
          cases h
          rfl
      | some bundle =>
          have hknown : contents.Known first := by
            by_contra hn
            rw [resolve?_eq_none_iff.mpr hn] at hr
            cases hr
          rw [decide_eq_false (not_not.mpr hknown)] at h
          dsimp only
          split
          · exact ih h
          · split
            · exact ih h
            · rw [ih h]
              rfl

theorem mem_of_standsFor {specs : List String} {named : List Bundle}
    (h : List.Forall₂ contents.StandsFor specs named) :
    ∀ bundle ∈ named, bundle ∈ contents.bundles := by
  induction h with
  | nil => exact List.forall_mem_nil _
  | cons hspec _ ih => exact List.forall_mem_cons.mpr ⟨hspec.mem, ih⟩

theorem exists_standsFor (hi : contents.Identified) {specs : List String}
    (h : ∀ spec ∈ specs, contents.Known spec) :
    ∃ named, List.Forall₂ contents.StandsFor specs named := by
  induction specs with
  | nil => exact ⟨[], .nil⟩
  | cons spec specs ih =>
      obtain ⟨hspec, hspecs⟩ := List.forall_mem_cons.mp h
      obtain ⟨named, hnamed⟩ := ih hspecs
      cases hr : contents.resolve? spec with
      | none => exact absurd hspec (resolve?_eq_none_iff.mp hr)
      | some bundle => exact ⟨bundle :: named, .cons ((resolve?_eq_some_iff hi).mp hr) hnamed⟩

theorem resolveAll_eq (hi : contents.Identified) {specs : List String} {named : List Bundle}
    (h : List.Forall₂ contents.StandsFor specs named) (seen : List BundleId) :
    contents.resolveAll seen specs =
      .ok (named.filter fun bundle => bundle.id ∉ seen.map some).eraseDups := by
  induction h generalizing seen with
  | nil => rfl
  | @cons spec bundle specs named hspec hnamed ih =>
      obtain ⟨id, hid⟩ := Option.isSome_iff_exists.mp (hi.isSome bundle hspec.mem)
      rw [resolveAll, (resolve?_eq_some_iff hi).mpr hspec, List.filter_cons]
      simp only [hid, List.mem_map, Option.some.injEq, exists_eq_right]
      split
      · rename_i hseen
        rw [if_neg (by simpa using hseen), ih seen]
        simp
      · rename_i hfresh
        -- What has the id that is seen now is the bundle itself.
        have hrest : (named.filter fun other => other.id ∉ (id :: seen).map some) =
            (named.filter fun other => other.id ∉ seen.map some).filter fun other =>
              !other == bundle := by
          rw [List.filter_filter]
          refine List.filter_congr fun other ho => ?_
          have hsame : other.id = some id ↔ other = bundle := by
            constructor
            · intro hother
              exact hi.eq_of_id (mem_of_standsFor hnamed other ho) hspec.mem (hother.trans hid.symm)
            · rintro rfl
              exact hid
          simp only [List.map_cons, List.mem_cons, hsame]
          by_cases hb : other = bundle <;> simp [hb]
        rw [if_pos (by simpa using hfresh), List.eraseDups_cons, ih (id :: seen), hrest]
        simp [Except.map]

/-! ### Specs and their descendants -/

theorem resolveAll_nodup {seen : List BundleId} {specs : List String} {found : List Bundle}
    (h : contents.resolveAll seen specs = .ok found) : (found.map Bundle.id).Nodup := by
  induction specs generalizing seen found with
  | nil =>
      cases h
      exact List.nodup_nil
  | cons spec specs ih =>
      rw [resolveAll] at h
      split at h
      · cases h
      · rename_i bundle _
        split at h
        · exact ih h
        · rename_i own hown
          split at h
          · exact ih h
          · cases hr : contents.resolveAll (own :: seen) specs with
            | error error => rw [hr] at h; cases h
            | ok rest =>
                rw [hr] at h
                cases h
                refine List.nodup_cons.mpr ⟨fun hmem => ?_, ih hr⟩
                have hagain : own ∈ rest.filterMap Bundle.id := by
                  obtain ⟨other, ho, hid⟩ := List.mem_map.mp hmem
                  exact List.mem_filterMap.mpr ⟨other, ho, hid.trans hown⟩
                exact (((resolveAll_ok hr).2 own).mp hagain).1 List.mem_cons_self

variable {tops : List BundleId} {level : Nat} {members : List Bundle}
  {generations : List (List Bundle)}

theorem Generation.exists_level (h : contents.Generation tops level members) {own : Option BundleId}
    (hown : own ∈ members.map Bundle.id) : ∃ id, own = some id ∧ contents.Level tops level id := by
  obtain ⟨bundle, hb, rfl⟩ := List.mem_map.mp hown
  exact ((h.mem_iff bundle).mp hb).2

theorem exists_level_of_mem_flatten
    (h : ∀ n members, generations[n]? = some members → contents.Generation tops (n + 1) members)
    {own : Option BundleId} (hown : own ∈ generations.flatten.map Bundle.id) :
    ∃ n id, own = some id ∧ contents.Level tops (n + 1) id := by
  obtain ⟨bundle, hb, rfl⟩ := List.mem_map.mp hown
  obtain ⟨members, hmembers, hb⟩ := List.mem_flatten.mp hb
  obtain ⟨n, hn⟩ := List.mem_iff_getElem?.mp hmembers
  exact ⟨n, (h n members hn).exists_level (List.mem_map_of_mem hb)⟩

/-- No id is in two generations, nor twice in one. -/
theorem nodup_generations (hi : contents.Identified)
    (h : ∀ n members, generations[n]? = some members → contents.Generation tops (n + 1) members) :
    (generations.flatten.map Bundle.id).Nodup := by
  rw [List.map_flatten, List.nodup_flatten]
  constructor
  · refine List.forall_mem_map.mpr fun members hmembers => ?_
    obtain ⟨n, hn⟩ := List.mem_iff_getElem?.mp hmembers
    exact hi.nodup.sublist ((h n members hn).sublist.map Bundle.id)
  · refine List.pairwise_map.mpr (List.pairwise_iff_getElem.mpr fun m n hm hn hlt => ?_)
    intro own hown hown'
    obtain ⟨id, rfl, hl⟩ := (h m _ (List.getElem?_eq_getElem hm)).exists_level hown
    obtain ⟨id', hid', hl'⟩ := (h n _ (List.getElem?_eq_getElem hn)).exists_level hown'
    cases hid'
    have := hl.unique hl'
    omega

/-- When specs all stand for something, what is fetched are these bundles and the generations below. -/
theorem exists_expansion (hi : contents.Identified) {specs : List String} {named : List Bundle}
    (h : List.Forall₂ contents.StandsFor specs named) (depth : Option Nat) :
    ∃ generations : List (List Bundle),
      generations.length = depth.getD 0 ∧
      (∀ n members, generations[n]? = some members →
        contents.Generation (named.filterMap Bundle.id) (n + 1) members) ∧
      contents.fetchBundles specs depth =
        .ok ((named.eraseDups ++ generations.flatten).map Bundle.explained) ∧
      ((named.eraseDups ++ generations.flatten).map Bundle.id).Nodup := by
  have hr : contents.resolveAll [] specs = .ok named.eraseDups := by
    simpa using resolveAll_eq hi h []
  have htop : ∀ id, id ∈ named.eraseDups.filterMap Bundle.id ↔
      contents.Level (named.filterMap Bundle.id) 0 id := by
    intro id
    rw [Level.zero_iff, List.mem_filterMap, List.mem_filterMap]
    simp only [List.mem_eraseDups]
  have hseen : ∀ id, id ∈ named.eraseDups.filterMap Bundle.id ↔
      ∃ above ≤ 0, contents.Level (named.filterMap Bundle.id) above id := by
    intro id
    rw [htop]
    simp
  obtain ⟨generations, hflat, hlength, hgen⟩ :=
    exists_generations hi (depth.getD 0) htop hseen
  simp only [Nat.zero_add] at hgen
  refine ⟨generations, hlength, hgen, ?_, ?_⟩
  · rw [fetchBundles, hr, ← hflat]
    rfl
  · rw [List.map_append, List.nodup_append]
    refine ⟨resolveAll_nodup hr, nodup_generations hi hgen, ?_⟩
    rintro own hown _ hbelow rfl
    obtain ⟨n, id, rfl, hl⟩ := exists_level_of_mem_flatten hgen hbelow
    obtain ⟨bundle, hb, hid⟩ := List.mem_map.mp hown
    have hzero := (htop id).mp (List.mem_filterMap.mpr ⟨bundle, hb, hid⟩)
    have := hzero.unique hl
    omega

end Contents

/-- **What a store answers to specs**: a failure that names the first one that no bundle goes by, if
there is one; otherwise what they stand for, each bundle once, and behind it the generations below,
down to the depth, all with their states explained. -/
theorem Store.fetchBundles_expands (supply : IdSupply) (store : Store) (specs : List String)
    (depth : Option Nat) (hi : store.contents.Identified) (hf : store.failures = []) :
    let contents := store.contents
    let outcome := (Store.handle supply (.fetchBundles specs depth) store).1
    (∀ spec, (specs.find? fun spec => ¬ contents.Known spec) = some spec →
        outcome = .error (.noMatch spec)) ∧
      ((specs.find? fun spec => ¬ contents.Known spec) = none →
        ∃ (named : List Bundle) (generations : List (List Bundle)),
          List.Forall₂ contents.StandsFor specs named ∧
          generations.length = depth.getD 0 ∧
          (∀ n members, generations[n]? = some members →
            contents.Generation (named.filterMap Bundle.id) (n + 1) members) ∧
          outcome = .ok ((named.eraseDups ++ generations.flatten).map Bundle.explained) ∧
          ((named.eraseDups ++ generations.flatten).map Bundle.id).Nodup) := by
  intro contents outcome
  have hanswer : outcome = contents.fetchBundles specs depth :=
    (Store.handle_eq supply _ store hf).1.trans (Stock.handle_fetchBundles supply _ specs depth)
  rw [hanswer]
  constructor
  · intro spec hspec
    rw [Contents.fetchBundles, Contents.resolveAll_error hspec]
    rfl
  · intro hnone
    have hknown : ∀ spec ∈ specs, contents.Known spec := by
      intro spec hspec
      simpa using List.find?_eq_none.mp hnone spec hspec
    obtain ⟨named, hnamed⟩ := Contents.exists_standsFor hi hknown
    obtain ⟨generations, hexpands⟩ := Contents.exists_expansion hi hnamed depth
    exact ⟨named, generations, hnamed, hexpands⟩

/-- Below one bundle of the ring there are the two others, though the first of them is stored before
it and the last one behind. -/
theorem Store.fetchBundles_expands_ring :
    let answer := fun specs => (Store.handle Stock.strokes (.fetchBundles specs (some 3)) .ring).1
    Store.ring.contents.Identified ∧ Store.ring.failures = [] ∧
      answer ["b", "lost", "gone"] = .error (.noMatch "lost") ∧
      (answer ["b", "b"]).map (·.map Bundle.id) = .ok [some "b", some "a", some "c"] ∧
      ∃ (named : List Bundle) (generations : List (List Bundle)),
        List.Forall₂ Store.ring.contents.StandsFor ["b", "b"] named ∧
        generations.length = 3 ∧
        answer ["b", "b"] = .ok ((named.eraseDups ++ generations.flatten).map Bundle.explained) := by
  intro answer
  have hi : Store.ring.contents.Identified := by decide
  have hexpands := fun specs =>
    Store.fetchBundles_expands Stock.strokes .ring specs (some 3) hi rfl
  refine ⟨hi, rfl, (hexpands ["b", "lost", "gone"]).1 "lost" (by decide), by decide, ?_⟩
  obtain ⟨named, generations, hnamed, hlength, _, hanswer, _⟩ :=
    (hexpands ["b", "b"]).2 (by decide)
  exact ⟨named, generations, hnamed, hlength, hanswer⟩

end Provenance
