import Provenance.Proofs.Calls
import Provenance.Proofs.Graph
import Provenance.Replay.Ancestors

/-!
# The ancestors that are collected

`Cache.collectAncestors` fetches level by level what is above some seeds.  `Frontier` is what holds
between two rounds, when `k` of them are made: the cache holds what is less than `k` edges above a
seed, and each bundle that is `k` edges above is on the frontier or was looked at before.

`Contents.Distance` is the least number of edges up from the seeds, and `Contents.Layer` says what a
round finds: everything one edge further up, and perhaps something that is as far as what it looks at,
if that was not fetched when it was found.

Main statement: `collectAncestors_ensures`.  After a walk of `depth` rounds the cache holds exactly
what is less than `depth` edges above the seeds, and the seeds; the ids that are reported are
exactly those at most `depth` edges above.
-/

namespace Provenance

open Dialogue

/-- An id is at most so many edges above one of some seeds. -/
def Contents.Within (contents : Contents) (seeds : List BundleId) (distance : Nat)
    (id : BundleId) : Prop :=
  ∃ seed ∈ seeds, ∃ n ≤ distance, Climb contents.Edge n seed id

namespace Contents.Within

variable {contents : Contents} {seeds : List BundleId} {distance : Nat} {id parent : BundleId}

theorem mono {further : Nat} (h : contents.Within seeds distance id) (hle : distance ≤ further) :
    contents.Within seeds further id := by
  obtain ⟨seed, hs, n, hn, hc⟩ := h
  exact ⟨seed, hs, n, by omega, hc⟩

theorem zero_iff : contents.Within seeds 0 id ↔ id ∈ seeds := by
  constructor
  · rintro ⟨seed, hs, n, hn, hc⟩
    obtain rfl : n = 0 := by omega
    cases hc
    exact hs
  · intro h
    exact ⟨id, h, 0, by omega, .here id⟩

theorem of_edge (h : contents.Within seeds distance id) (he : contents.Edge id parent) :
    contents.Within seeds (distance + 1) parent := by
  obtain ⟨seed, hs, n, hn, hc⟩ := h
  exact ⟨seed, hs, n + 1, by omega, hc.snoc he⟩

theorem of_succ (h : contents.Within seeds (distance + 1) id) :
    contents.Within seeds distance id ∨
      ∃ child, contents.Within seeds distance child ∧ contents.Edge child id := by
  obtain ⟨seed, hs, n, hn, hc⟩ := h
  rcases Nat.lt_or_ge n (distance + 1) with hlt | hge
  · exact .inl ⟨seed, hs, n, by omega, hc⟩
  · obtain rfl : n = distance + 1 := by omega
    obtain ⟨child, hc, he⟩ := hc.exists_of_succ
    exact .inr ⟨child, ⟨seed, hs, distance, by omega, hc⟩, he⟩

end Contents.Within

/-- The least number of edges that lead up from one of some seeds to an id. -/
def Contents.Distance (contents : Contents) (seeds : List BundleId) (distance : Nat)
    (id : BundleId) : Prop :=
  (∃ seed ∈ seeds, Climb contents.Edge distance seed id) ∧
    ∀ less < distance, ¬ ∃ seed ∈ seeds, Climb contents.Edge less seed id

namespace Contents.Distance

variable {contents : Contents} {seeds : List BundleId} {distance : Nat} {id : BundleId}

theorem within (h : contents.Distance seeds distance id) : contents.Within seeds distance id := by
  obtain ⟨⟨seed, hs, hc⟩, _⟩ := h
  exact ⟨seed, hs, distance, Nat.le_refl _, hc⟩

theorem le_of_within {bound : Nat} (h : contents.Distance seeds distance id)
    (hw : contents.Within seeds bound id) : distance ≤ bound := by
  obtain ⟨seed, hs, n, hn, hc⟩ := hw
  by_contra hlt
  exact h.2 n (by omega) ⟨seed, hs, hc⟩

theorem exists_of_within (h : contents.Within seeds distance id) :
    ∃ least ≤ distance, contents.Distance seeds least id := by
  classical
  obtain ⟨seed, hs, n, hn, hc⟩ := h
  have hreached : ∃ n, ∃ seed ∈ seeds, Climb contents.Edge n seed id := ⟨n, seed, hs, hc⟩
  refine ⟨Nat.find hreached, ?_, Nat.find_spec hreached, fun less => Nat.find_min hreached⟩
  exact Nat.le_trans (Nat.find_le ⟨seed, hs, hc⟩) hn

end Contents.Distance

theorem Contents.within_iff {contents : Contents} {seeds : List BundleId} {distance : Nat}
    {id : BundleId} :
    contents.Within seeds distance id ↔ ∃ least ≤ distance, contents.Distance seeds least id := by
  constructor
  · exact Contents.Distance.exists_of_within
  · rintro ⟨least, hle, h⟩
    exact h.within.mono hle

/-- What is found by looking at what is `k` edges above some seeds: everything that is one edge
further up, and otherwise only what is `k` edges above, too. -/
structure Contents.Layer (contents : Contents) (seeds : List BundleId) (k : Nat)
    (layer : List BundleId) : Prop where
  complete : ∀ id, contents.Distance seeds (k + 1) id → id ∈ layer
  sound : ∀ id ∈ layer, contents.Distance seeds (k + 1) id ∨ contents.Distance seeds k id

namespace Cache

variable {supply : IdSupply} {stock : Stock} {cache : Cache} {contents : Contents}

/-! ### Filling a cache -/

theorem contains_ofBundles {bundles : List Bundle} {id : BundleId} :
    (ofBundles bundles).contains id = true ↔ id ∈ idsOf bundles := by
  rw [Register.contains, get?_ofBundles, idsOf, List.mem_eraseDups, List.mem_filterMap]
  simp

theorem mirrors_ofBundles {bundles : List Bundle}
    (h : ∀ bundle ∈ bundles, ∃ stored ∈ contents.bundles, bundle = stored.explained) :
    (ofBundles bundles).Mirrors contents := by
  intro id bundle hb
  have hid := keyed_ofBundles bundles id bundle hb
  rw [get?_ofBundles] at hb
  obtain ⟨stored, hs, rfl⟩ := h bundle (List.mem_of_find?_eq_some hb)
  exact ⟨stored, hs, hid, rfl⟩

theorem ensure_finds (hm : cache.Mirrors stock.contents) (id : BundleId) :
    (cache.ensure id).Finds supply stock fun found => found.2.Mirrors stock.contents ∧
      found.2.get? id = some found.1 ∧
      ∀ other, found.2.contains other = true ↔ other = id ∨ cache.contains other = true := by
  unfold ensure
  cases hc : cache.get? id with
  | some bundle =>
      refine finds_ok ⟨hm, hc, fun other => ⟨.inr, ?_⟩⟩
      intro ho
      rcases ho with rfl | ho
      · simp [Register.contains, hc]
      · exact ho
  | none =>
      have hcall : (call (.fetchBundle id)).Finds supply stock fun bundle =>
          ∃ stored ∈ stock.contents.bundles, stored.id = some id ∧ bundle = stored.explained := by
        refine finds_call fun bundle after hs => ?_
        obtain ⟨hb, hafter⟩ := hs.fetchBundle
        refine ⟨?_, hafter⟩
        unfold Contents.fetchBundle at hb
        split at hb
        · rename_i stored hstored
          cases hb
          obtain ⟨hmem, hid⟩ := Contents.mem_of_bundle? hstored
          exact ⟨stored, hmem, hid, rfl⟩
        · cases hb
      refine hcall.bind (fun _ => finds_error) fun bundle hb => finds_ok ?_
      have hself : (cache.add id bundle).get? id = some bundle :=
        Register.get?_add_self bundle (by simp [Register.contains, hc])
      refine ⟨?_, hself, fun other => cache.contains_add id other bundle⟩
      intro other found ho
      rw [Register.get?_add] at ho
      split at ho
      · rename_i h
        obtain ⟨rfl, _⟩ := h
        cases ho
        exact hb
      · exact hm other found ho

theorem round_mirrors (hm : cache.Mirrors stock.contents) (found visited frontier : List BundleId) :
    (cache.round found visited frontier).Ensures supply stock fun result after =>
      after = stock ∧ result.2.Mirrors stock.contents := by
  induction frontier generalizing cache found visited with
  | nil => exact ⟨rfl, hm⟩
  | cons id frontier ih =>
      rw [round]
      split
      · exact ih hm found visited
      · refine Ensures.bind (ensure_finds hm id) ?_
        rintro result after ⟨rfl, h⟩
        cases result with
        | error error => exact ⟨rfl, hm⟩
        | ok ensured => exact ih (h ensured rfl).1 _ _

/-- Whatever is collected, it is what the store has. -/
theorem rounds_mirrors (hm : cache.Mirrors stock.contents) (collected visited : List BundleId)
    (depth : Nat) (frontier : List BundleId) :
    (cache.rounds collected visited depth frontier).Ensures supply stock fun result after =>
      after = stock ∧ result.2.Mirrors stock.contents := by
  induction depth generalizing cache collected visited frontier with
  | zero => exact ⟨rfl, hm⟩
  | succ depth ih =>
      cases frontier with
      | nil => exact ⟨rfl, hm⟩
      | cons id frontier =>
          rw [rounds]
          · refine (round_mirrors hm [] visited (id :: frontier)).bind ?_
            rintro ⟨outcome, next⟩ after ⟨rfl, hnext⟩
            cases outcome with
            | error error => exact ⟨rfl, hnext⟩
            | ok round => exact ih hnext _ _ _
          · exact nofun

/-! ### One round -/

/-- What a round does to the cache, with the ids that it adds to those found. -/
structure Rounded (contents : Contents) (cache : Cache) (visited frontier extra : List BundleId)
    (visited' : List BundleId) (cache' : Cache) : Prop where
  mirrors : cache'.Mirrors contents
  contains_iff : ∀ id, cache'.contains id = true ↔ cache.contains id = true ∨ id ∈ frontier
  visited_iff : ∀ id, id ∈ visited' ↔ id ∈ visited ∨ id ∈ frontier
  sound : ∀ parent ∈ extra, ∃ child ∈ frontier, contents.Edge child parent
  fresh : ∀ parent ∈ extra, ¬ cache.contains parent = true
  complete : ∀ child ∈ frontier, child ∉ visited → ∀ parent, contents.Edge child parent →
    cache'.contains parent = true ∨ parent ∈ extra

namespace Rounded

variable {visited visited' frontier extra : List BundleId} {cache' next : Cache} {id : BundleId}

theorem nil (hm : cache.Mirrors contents) :
    Rounded contents cache visited [] [] visited cache := by
  refine ⟨hm, ?_, ?_, ?_, ?_, ?_⟩ <;> simp

theorem skip (h : Rounded contents cache visited frontier extra visited' cache')
    (hid : id ∈ visited) (hc : cache.contains id = true) :
    Rounded contents cache visited (id :: frontier) extra visited' cache' := by
  refine ⟨h.mirrors, ?_, ?_, ?_, h.fresh, ?_⟩
  · intro other
    rw [h.contains_iff, List.mem_cons]
    grind
  · intro other
    rw [h.visited_iff, List.mem_cons]
    grind
  · intro parent hp
    obtain ⟨child, hchild, he⟩ := h.sound parent hp
    exact ⟨child, List.mem_cons_of_mem _ hchild, he⟩
  · intro child hchild hn
    rcases List.mem_cons.mp hchild with rfl | hchild
    · exact absurd hid hn
    · exact h.complete child hchild hn

/-- Looking at the parents of an id finds those that are not cached. -/
theorem look (hd : contents.ids.Nodup) {stored : Bundle} (hs : stored ∈ contents.bundles)
    (hid : stored.id = some id)
    (hn : ∀ other, next.contains other = true ↔ other = id ∨ cache.contains other = true)
    (h : Rounded contents next (id :: visited) frontier extra visited' cache') :
    Rounded contents cache visited (id :: frontier)
      ((stored.parents.filter fun parent => ¬ next.contains parent) ++ extra) visited' cache' := by
  refine ⟨h.mirrors, ?_, ?_, ?_, ?_, ?_⟩
  · intro other
    rw [h.contains_iff, hn, List.mem_cons]
    grind
  · intro other
    rw [h.visited_iff, List.mem_cons, List.mem_cons]
    grind
  · intro parent hp
    rcases List.mem_append.mp hp with hp | hp
    · have hparent := (List.mem_filter.mp hp).1
      exact ⟨id, List.mem_cons_self, (Contents.edge_iff_of_nodup_ids hd hs hid).mpr hparent⟩
    · obtain ⟨child, hchild, he⟩ := h.sound parent hp
      exact ⟨child, List.mem_cons_of_mem _ hchild, he⟩
  · intro parent hp hknown
    have hnext : next.contains parent = true := (hn parent).mpr (.inr hknown)
    rcases List.mem_append.mp hp with hp | hp
    · exact of_decide_eq_true (List.mem_filter.mp hp).2 hnext
    · exact h.fresh parent hp hnext
  · intro child hchild hv parent he
    by_cases hown : child = id
    · subst hown
      have hparent : parent ∈ stored.parents := (Contents.edge_iff_of_nodup_ids hd hs hid).mp he
      by_cases hknown : next.contains parent = true
      · exact .inl ((h.contains_iff parent).mpr (.inl hknown))
      · refine .inr (List.mem_append_left _ (List.mem_filter.mpr ⟨hparent, ?_⟩))
        simpa using hknown
    · have hchild : child ∈ frontier := (List.mem_cons.mp hchild).resolve_left hown
      have hv : child ∉ id :: visited := by simp [hown, hv]
      exact (h.complete child hchild hv parent he).imp_right (List.mem_append_right _)

end Rounded

theorem round_ensures (hd : stock.contents.ids.Nodup) {visited : List BundleId}
    (frontier found : List BundleId) (hm : cache.Mirrors stock.contents)
    (hv : ∀ id ∈ visited, cache.contains id = true) :
    (cache.round found visited frontier).Ensures supply stock fun result after => after = stock ∧
      ∀ round, result.1 = .ok round → ∃ extra, round.found = found ++ extra ∧
        Rounded stock.contents cache visited frontier extra round.visited result.2 := by
  induction frontier generalizing cache found visited with
  | nil =>
      refine ⟨rfl, ?_⟩
      intro round hr
      cases hr
      exact ⟨[], (List.append_nil _).symm, .nil hm⟩
  | cons id frontier ih =>
      rw [round]
      split
      · rename_i hid
        refine (ih found hm hv).mono ?_
        intro result after hresult
        obtain ⟨rfl, h⟩ := hresult
        refine ⟨rfl, ?_⟩
        intro round hr
        obtain ⟨extra, hf, hround⟩ := h round hr
        exact ⟨extra, hf, hround.skip hid (hv id hid)⟩
      · refine Ensures.bind (ensure_finds hm id) ?_
        intro result after hresult
        obtain ⟨rfl, h⟩ := hresult
        cases result with
        | error error => exact ⟨rfl, nofun⟩
        | ok ensured =>
            obtain ⟨bundle, next⟩ := ensured
            obtain ⟨hm', hb, hn⟩ := h _ rfl
            obtain ⟨stored, hs, hid, rfl⟩ := hm' id bundle hb
            have hv' : ∀ other ∈ id :: visited, next.contains other = true := by
              intro other ho
              rw [hn]
              exact (List.mem_cons.mp ho).imp_right (hv other)
            refine (ih _ hm' hv').mono ?_
            intro result after hresult
            obtain ⟨rfl, h⟩ := hresult
            refine ⟨rfl, ?_⟩
            intro round hr
            obtain ⟨extra, hf, hround⟩ := h round hr
            refine ⟨_, ?_, .look hd hs hid hn hround⟩
            rw [hf, List.append_assoc]
            rfl

/-! ### Round after round -/

/-- What holds after `k` rounds from some seeds. -/
structure Frontier (contents : Contents) (seeds : List BundleId) (k : Nat) (cache : Cache)
    (collected visited frontier : List BundleId) : Prop where
  mirrors : cache.Mirrors contents
  contains_iff : ∀ id, cache.contains id = true ↔ contents.Within seeds (k - 1) id
  collected_iff : ∀ id, id ∈ collected ↔ contents.Within seeds k id
  visited_cached : ∀ id ∈ visited, cache.contains id = true
  cached : ∀ id, cache.contains id = true → id ∈ visited ∨ id ∈ frontier
  closed : ∀ child ∈ visited, ∀ parent, contents.Edge child parent →
    parent ∈ visited ∨ parent ∈ frontier
  sound : ∀ id ∈ frontier, contents.Within seeds k id
  complete : ∀ id, contents.Within seeds k id → id ∈ visited ∨ id ∈ frontier

namespace Frontier

variable {seeds collected visited frontier : List BundleId} {k : Nat}

theorem start (hm : cache.Mirrors contents) (hc : ∀ id, cache.contains id = true ↔ id ∈ seeds) :
    Frontier contents seeds 0 cache seeds [] seeds where
  mirrors := hm
  contains_iff id := by rw [hc, Contents.Within.zero_iff]
  collected_iff id := Contents.Within.zero_iff.symm
  visited_cached := by simp
  cached id h := .inr ((hc id).mp h)
  closed := by simp
  sound id h := Contents.Within.zero_iff.mpr h
  complete id h := .inr (Contents.Within.zero_iff.mp h)

/-- A round goes one edge further. -/
theorem step {extra visited' : List BundleId} {cache' : Cache}
    (h : Frontier contents seeds k cache collected visited frontier)
    (hr : Rounded contents cache visited frontier extra visited' cache') :
    Frontier contents seeds (k + 1) cache' (extra ++ collected) visited' extra := by
  have hnear : ∀ id, id ∈ visited' ↔ contents.Within seeds k id := by
    intro id
    rw [hr.visited_iff]
    constructor
    · rintro (hid | hid)
      · exact ((h.contains_iff id).mp (h.visited_cached id hid)).mono (by omega)
      · exact h.sound id hid
    · exact h.complete id
  have hcache : ∀ id, cache'.contains id = true ↔ contents.Within seeds k id := by
    intro id
    rw [← hnear, hr.visited_iff, hr.contains_iff]
    constructor
    · rintro (hid | hid)
      · exact h.cached id hid
      · exact .inr hid
    · rintro (hid | hid)
      · exact .inl (h.visited_cached id hid)
      · exact .inr hid
  have hparent : ∀ child ∈ visited', ∀ parent, contents.Edge child parent →
      parent ∈ visited' ∨ parent ∈ extra := by
    intro child hchild parent he
    by_cases hcv : child ∈ visited
    · exact .inl ((hr.visited_iff parent).mpr (h.closed child hcv parent he))
    · have hcf := ((hr.visited_iff child).mp hchild).resolve_left hcv
      refine (hr.complete child hcf hcv parent he).imp_left ?_
      intro hp
      exact (hnear parent).mpr ((hcache parent).mp hp)
  have hsound : ∀ id ∈ extra, contents.Within seeds (k + 1) id := by
    intro id hid
    obtain ⟨child, hc, he⟩ := hr.sound id hid
    exact (h.sound child hc).of_edge he
  have hcomplete : ∀ id, contents.Within seeds (k + 1) id → id ∈ visited' ∨ id ∈ extra := by
    intro id hid
    rcases hid.of_succ with hid | ⟨child, hc, he⟩
    · exact .inl ((hnear id).mpr hid)
    · exact hparent child ((hnear child).mpr hc) id he
  refine ⟨hr.mirrors, hcache, ?_, ?_, ?_, hparent, hsound, hcomplete⟩
  · intro id
    rw [List.mem_append, h.collected_iff]
    constructor
    · rintro (hid | hid)
      · exact hsound id hid
      · exact hid.mono (by omega)
    · intro hid
      exact (hcomplete id hid).symm.imp_right (hnear id).mp
  · intro id hid
    exact (hcache id).mpr ((hnear id).mp hid)
  · intro id hid
    exact .inl ((hnear id).mpr ((hcache id).mp hid))

/-- With an empty frontier all that is above the seeds is within reach. -/
theorem within_of_nil (h : Frontier contents seeds k cache collected visited []) {further : Nat}
    {id : BundleId} (hid : contents.Within seeds further id) : id ∈ visited := by
  obtain ⟨seed, hs, n, -, hc⟩ := hid
  have hseed : seed ∈ visited := by
    simpa using h.complete seed ⟨seed, hs, 0, by omega, .here seed⟩
  clear hs
  induction hc with
  | here => exact hseed
  | up he _ ih => exact ih (by simpa using h.closed _ hseed _ he)

theorem layer {extra visited' : List BundleId} {cache' : Cache}
    (h : Frontier contents seeds k cache collected visited frontier)
    (hr : Rounded contents cache visited frontier extra visited' cache') :
    contents.Layer seeds k extra := by
  have hnext := h.step hr
  constructor
  · intro id hid
    rcases hnext.complete id hid.within with hv | hextra
    · have := hid.le_of_within ((hnext.contains_iff id).mp (hnext.visited_cached id hv))
      omega
    · exact hextra
  · intro id hid
    obtain ⟨least, hle, hl⟩ := Contents.Distance.exists_of_within (hnext.sound id hid)
    have hfar : ¬ least ≤ k - 1 := fun hnear =>
      hr.fresh id hid ((h.contains_iff id).mpr (hl.within.mono hnear))
    rcases Nat.lt_or_ge k least with hlt | hge
    · obtain rfl : least = k + 1 := by omega
      exact .inl hl
    · obtain rfl : least = k := by omega
      exact .inr hl

theorem layer_nil (h : Frontier contents seeds k cache collected visited []) (n : Nat) :
    contents.Layer seeds (k + n) [] := by
  refine ⟨fun id hid => ?_, List.forall_mem_nil _⟩
  have hvisited := h.within_of_nil hid.within
  have := hid.le_of_within ((h.contains_iff id).mp (h.visited_cached id hvisited))
  omega

end Frontier

/-- What is there when `depth` rounds were made from some ids that are `k` edges above the seeds. -/
structure Gathered (contents : Contents) (seeds : List BundleId) (k depth : Nat)
    (collected closure : List BundleId) (last : Cache) : Prop where
  mirrors : last.Mirrors contents
  contains_iff : ∀ id, last.contains id = true ↔ contents.Within seeds (k + depth - 1) id
  closure_iff : ∀ id, id ∈ closure ↔ contents.Within seeds (k + depth) id
  layers : ∃ layers : List (List BundleId), closure = layers.reverse.flatten ++ collected ∧
    layers.length = depth ∧
    ∀ n layer, layers[n]? = some layer → contents.Layer seeds (k + n) layer

namespace Gathered

variable {seeds collected closure visited frontier extra visited' : List BundleId} {k depth : Nat}
  {cache' last : Cache}

theorem zero (h : Frontier contents seeds k cache collected visited frontier) :
    Gathered contents seeds k 0 collected collected cache where
  mirrors := h.mirrors
  contains_iff := h.contains_iff
  closure_iff := h.collected_iff
  layers := ⟨[], rfl, rfl, nofun⟩

/-- With an empty frontier nothing is further up than what was looked at, so no round is needed. -/
theorem stop (h : Frontier contents seeds k cache collected visited []) (depth : Nat) :
    Gathered contents seeds k depth collected collected cache := by
  have hfar : ∀ id further, contents.Within seeds further id → contents.Within seeds (k - 1) id :=
    fun id further hid => (h.contains_iff id).mp (h.visited_cached id (h.within_of_nil hid))
  refine ⟨h.mirrors, ?_, ?_, List.replicate depth [], ?_, List.length_replicate, ?_⟩
  · intro id
    rw [h.contains_iff]
    exact ⟨fun hid => hid.mono (by omega), hfar id _⟩
  · intro id
    rw [h.collected_iff]
    exact ⟨fun hid => hid.mono (by omega), fun hid => (hfar id _ hid).mono (by omega)⟩
  · rw [List.reverse_replicate, List.flatten_replicate_nil]
    rfl
  · intro n layer hlayer
    obtain rfl := (List.mem_replicate.mp (List.mem_of_getElem? hlayer)).2
    exact h.layer_nil n

theorem succ (h : Frontier contents seeds k cache collected visited frontier)
    (hr : Rounded contents cache visited frontier extra visited' cache')
    (hg : Gathered contents seeds (k + 1) depth (extra ++ collected) closure last) :
    Gathered contents seeds k (depth + 1) collected closure last := by
  have hk : k + 1 + depth = k + (depth + 1) := by omega
  obtain ⟨layers, hclosure, hlength, hlayers⟩ := hg.layers
  refine ⟨hg.mirrors, hk ▸ hg.contains_iff, hk ▸ hg.closure_iff, extra :: layers, ?_, ?_, ?_⟩
  · rw [hclosure, List.reverse_cons, List.flatten_append, List.append_assoc]
    simp
  · rw [List.length_cons, hlength]
  · intro n layer hlayer
    cases n with
    | zero =>
        cases hlayer
        exact h.layer hr
    | succ n =>
        have hnext := hlayers n layer hlayer
        rwa [Nat.add_right_comm] at hnext

end Gathered

theorem rounds_ensures (hd : stock.contents.ids.Nodup) {seeds : List BundleId} (depth : Nat)
    {k : Nat} {collected visited frontier : List BundleId}
    (h : Frontier stock.contents seeds k cache collected visited frontier) :
    (cache.rounds collected visited depth frontier).Ensures supply stock fun result after =>
      after = stock ∧ ∀ closure, result.1 = .ok closure →
        Gathered stock.contents seeds k depth collected closure result.2 := by
  induction depth generalizing cache k collected visited frontier with
  | zero =>
      refine ⟨rfl, ?_⟩
      rintro _ ⟨⟩
      exact .zero h
  | succ depth ih =>
      cases frontier with
      | nil =>
          refine ⟨rfl, ?_⟩
          rintro _ ⟨⟩
          exact .stop h _
      | cons id frontier =>
          rw [rounds]
          · refine (round_ensures hd _ [] h.mirrors h.visited_cached).bind ?_
            rintro ⟨outcome, next⟩ after ⟨rfl, hround⟩
            cases outcome with
            | error error =>
                refine ⟨rfl, ?_⟩
                rintro _ ⟨⟩
            | ok round =>
                obtain ⟨extra, hf, hr⟩ := hround round rfl
                rw [List.nil_append] at hf
                have hnext := h.step hr
                rw [← hf] at hnext hr
                refine (ih hnext).mono ?_
                rintro result after ⟨rfl, hresult⟩
                exact ⟨rfl, fun closure hclosure => .succ h hr (hresult closure hclosure)⟩
          · simp

/-- **What is collected**: the cache holds the seeds and what is less than `depth` edges above them,
and the ids that are reported are those at most `depth` edges above. -/
theorem collectAncestors_ensures (hi : stock.contents.Identified) {seeds : List BundleId}
    (hm : cache.Mirrors stock.contents) (hc : ∀ id, cache.contains id = true ↔ id ∈ seeds)
    (depth : Nat) :
    (cache.collectAncestors seeds depth).Ensures supply stock fun result after =>
      after = stock ∧ ∀ closure, result.1 = .ok closure →
        result.2.Mirrors stock.contents ∧
        (∀ id, result.2.contains id = true ↔ stock.contents.Within seeds (depth - 1) id) ∧
        ∀ id, id ∈ closure ↔ stock.contents.Within seeds depth id := by
  refine (rounds_ensures hi.nodup_ids depth (Frontier.start hm hc)).mono ?_
  rintro result after ⟨rfl, h⟩
  refine ⟨rfl, fun closure hclosure => ?_⟩
  have hg := h closure hclosure
  rw [← Nat.zero_add depth]
  exact ⟨hg.mirrors, hg.contains_iff, hg.closure_iff⟩

end Cache

end Provenance
