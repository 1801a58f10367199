import Provenance.Proofs.Ancestors
import Provenance.Proofs.Conduct

/-!
# Collecting ancestors is a breadth-first search

`Cache.collectAncestors` lists layer after layer of what is above some seeds, each with everything of
one distance (`Contents.Layer`).  `Cache.Fills` says by which calls a cache is filled: none is for a
bundle that is cached, so none is made twice.

Main statement: `collectAncestors_searches`, for every graph, with cycles or not, in which no two
bundles have one id, and whatever calls fail.
-/

namespace Provenance

open Dialogue

namespace Cache

variable {supply : IdSupply} {before after : Stock} {events events' : List Event}
  {cache next last : Cache} {id : BundleId}

/-! ### The calls that fill a cache -/

/-- Each event is an answer for a bundle that is not cached yet, and the answer is kept. -/
inductive Fills : Cache → List Event → Cache → Prop
  | done (cache : Cache) : Fills cache [] cache
  | fetch {cache last : Cache} {id : BundleId} {bundle : Bundle} {events : List Event}
      (hc : ¬ cache.contains id = true) (h : Fills (cache.add id bundle) events last) :
      Fills cache (⟨.fetchBundle id, .ok bundle⟩ :: events) last

namespace Fills

theorem append (h : Fills cache events next) (h' : Fills next events' last) :
    Fills cache (events ++ events') last := by
  induction h with
  | done => exact h'
  | fetch hc _ ih => exact .fetch hc (ih h')

theorem exists_ids (h : Fills cache events last) : ∃ ids : List BundleId,
    events.map Event.call = ids.map .fetchBundle ∧ last.ids = cache.ids ++ ids := by
  induction h with
  | done cache => exact ⟨[], rfl, (List.append_nil _).symm⟩
  | @fetch cache last id bundle events hc _ ih =>
      obtain ⟨ids, hcalls, hlast⟩ := ih
      refine ⟨id :: ids, congrArg (Call.fetchBundle id :: ·) hcalls, ?_⟩
      rw [hlast, Register.ids_add bundle hc, List.append_assoc]
      rfl

end Fills

theorem ensure_fills {result : Except StoreError (Bundle × Cache)}
    (hl : (cache.ensure id).Leads supply before events result after) :
    (∀ ensured, result = .ok ensured → cache.Fills events ensured.2) ∧
      ∀ error, result = .error error → ⟨.fetchBundle id, .error error⟩ ∈ events := by
  unfold ensure at hl
  cases hc : cache.get? id with
  | some bundle =>
      simp only [hc] at hl
      obtain ⟨rfl, rfl, rfl⟩ := Leads.of_pure hl
      constructor
      · rintro _ ⟨⟩
        exact .done cache
      · rintro _ ⟨⟩
  | none =>
      simp only [hc] at hl
      have hfree : ¬ cache.contains id = true := by simp [Register.contains, hc]
      cases hl with
      | @ask _ _ outcome _ _ _ _ _ hs hl =>
          cases outcome with
          | error error =>
              obtain ⟨rfl, rfl, rfl⟩ := Leads.of_pure hl
              constructor
              · rintro _ ⟨⟩
              · rintro _ ⟨⟩
                exact List.mem_cons_self
          | ok bundle =>
              obtain ⟨rfl, rfl, rfl⟩ := Leads.of_pure hl
              constructor
              · rintro _ ⟨⟩
                exact .fetch hfree (.done _)
              · rintro _ ⟨⟩

theorem round_fills {found visited frontier : List BundleId}
    {result : Except StoreError AncestorRound × Cache}
    (hl : (cache.round found visited frontier).Leads supply before events result after) :
    (∀ round, result.1 = .ok round → cache.Fills events result.2) ∧
      ∀ error, result.1 = .error error →
        ∃ id ∈ frontier, ⟨.fetchBundle id, .error error⟩ ∈ events := by
  induction frontier generalizing cache found visited before events with
  | nil =>
      obtain ⟨rfl, rfl, rfl⟩ := Leads.of_pure hl
      refine ⟨fun _ _ => .done cache, ?_⟩
      rintro _ ⟨⟩
  | cons id frontier ih =>
      rw [round] at hl
      split at hl
      · obtain ⟨hok, herror⟩ := ih hl
        refine ⟨hok, fun error he => ?_⟩
        obtain ⟨failed, hf, hevent⟩ := herror error he
        exact ⟨failed, List.mem_cons_of_mem _ hf, hevent⟩
      · obtain ⟨first, second, ensured, mid, rfl, hfirst, hsecond⟩ := Leads.of_bind hl
        obtain ⟨hok, herror⟩ := ensure_fills hfirst
        cases ensured with
        | error error =>
            obtain ⟨rfl, rfl, rfl⟩ := Leads.of_pure hsecond
            constructor
            · rintro _ ⟨⟩
            · rintro _ ⟨⟩
              exact ⟨id, List.mem_cons_self, List.mem_append_left _ (herror error rfl)⟩
        | ok ensured =>
            obtain ⟨hok', herror'⟩ := ih hsecond
            refine ⟨fun round hr => (hok ensured rfl).append (hok' round hr), fun error he => ?_⟩
            obtain ⟨failed, hf, hevent⟩ := herror' error he
            exact ⟨failed, List.mem_cons_of_mem _ hf, List.mem_append_right _ hevent⟩

theorem rounds_fills (hd : before.contents.ids.Nodup) {seeds : List BundleId} (depth : Nat) {k : Nat}
    {collected visited frontier : List BundleId}
    {result : Except StoreError (List BundleId) × Cache}
    (h : Frontier before.contents seeds k cache collected visited frontier)
    (hl : (cache.rounds collected visited depth frontier).Leads supply before events result after) :
    (∀ closure, result.1 = .ok closure → cache.Fills events result.2) ∧
      ∀ error, result.1 = .error error → ∃ id,
        (∃ distance < k + depth, before.contents.Distance seeds distance id) ∧
          ⟨.fetchBundle id, .error error⟩ ∈ events := by
  induction depth generalizing cache k collected visited frontier events with
  | zero =>
      obtain ⟨rfl, rfl, rfl⟩ := Leads.of_pure hl
      refine ⟨fun _ _ => .done cache, ?_⟩
      rintro _ ⟨⟩
  | succ depth ih =>
      cases frontier with
      | nil =>
          obtain ⟨rfl, rfl, rfl⟩ := Leads.of_pure hl
          refine ⟨fun _ _ => .done cache, ?_⟩
          rintro _ ⟨⟩
      | cons id frontier =>
          rw [rounds] at hl
          · obtain ⟨first, second, ⟨outcome, next⟩, mid, rfl, hfirst, hsecond⟩ := Leads.of_bind hl
            obtain ⟨hok, herror⟩ := round_fills hfirst
            obtain ⟨rfl, hround⟩ :=
              (round_ensures hd _ [] h.mirrors h.visited_cached).of_leads hfirst
            cases outcome with
            | error error =>
                obtain ⟨rfl, rfl, rfl⟩ := Leads.of_pure hsecond
                constructor
                · rintro _ ⟨⟩
                · rintro _ ⟨⟩
                  obtain ⟨failed, hf, hevent⟩ := herror error rfl
                  obtain ⟨least, hle, hleast⟩ :=
                    Contents.Distance.exists_of_within (h.sound failed hf)
                  exact ⟨failed, ⟨least, by omega, hleast⟩, List.mem_append_left _ hevent⟩
            | ok round =>
                obtain ⟨extra, hf, hr⟩ := hround round rfl
                rw [List.nil_append] at hf
                have hnext := h.step hr
                rw [← hf] at hnext
                obtain ⟨hok', herror'⟩ := ih hnext hsecond
                refine ⟨fun closure hc => (hok round rfl).append (hok' closure hc), ?_⟩
                intro error he
                obtain ⟨failed, ⟨distance, hlt, hdist⟩, hevent⟩ := herror' error he
                exact ⟨failed, ⟨distance, by omega, hdist⟩, List.mem_append_right _ hevent⟩
          · simp

/-! ### Searches -/

/-- What a search from some seeds lists and caches, and which bundles it asks a store for. -/
structure Searched (contents : Contents) (seeds : List BundleId) (depth : Nat)
    (closure : List BundleId) (last : Cache) (asked : List BundleId) : Prop where
  /-- The layers stand in front of the seeds, the one furthest up first. -/
  layers : ∃ layers : List (List BundleId), closure = layers.reverse.flatten ++ seeds ∧
    layers.length = depth ∧ ∀ k layer, layers[k]? = some layer → contents.Layer seeds k layer
  closure_iff : ∀ id, id ∈ closure ↔ ∃ distance ≤ depth, contents.Distance seeds distance id
  contains_iff : ∀ id, last.contains id = true ↔
    id ∈ seeds ∨ ∃ distance < depth, contents.Distance seeds distance id
  mirrors : last.Mirrors contents
  nodup : asked.Nodup
  fresh : ∀ id ∈ asked, id ∉ seeds

variable {contents : Contents} {seeds closure asked : List BundleId} {depth : Nat}

theorem Gathered.contains_iff_distance (h : Gathered contents seeds 0 depth seeds closure last) :
    last.contains id = true ↔ id ∈ seeds ∨ ∃ distance < depth, contents.Distance seeds distance id := by
  rw [h.contains_iff]
  constructor
  · intro hw
    obtain ⟨least, hle, hl⟩ := Contents.Distance.exists_of_within hw
    rcases Nat.eq_zero_or_pos least with rfl | hpos
    · exact .inl (Contents.Within.zero_iff.mp hl.within)
    · exact .inr ⟨least, by omega, hl⟩
  · rintro (hseed | ⟨distance, hlt, hdist⟩)
    · exact (Contents.Within.zero_iff.mpr hseed).mono (Nat.zero_le _)
    · exact hdist.within.mono (by omega)

/-- What is cached in the end was cached or is asked for, so the latter are neither seeds nor the
same. -/
theorem Gathered.searched (h : Gathered contents seeds 0 depth seeds closure last)
    (hc : ∀ id, cache.contains id = true ↔ id ∈ seeds) (hids : last.ids = cache.ids ++ asked) :
    Searched contents seeds depth closure last asked := by
  have hnodup : (cache.ids ++ asked).Nodup := hids ▸ last.nodup
  obtain ⟨_, hasked, hdisjoint⟩ := List.nodup_append.mp hnodup
  obtain ⟨layers, hclosure, hlength, hlayers⟩ := h.layers
  refine ⟨⟨layers, hclosure, hlength, ?_⟩, ?_, ?_, h.mirrors, hasked, ?_⟩
  · intro k layer hlayer
    have hk := hlayers k layer hlayer
    rwa [Nat.zero_add] at hk
  · intro id
    rw [h.closure_iff, Nat.zero_add, Contents.within_iff]
  · intro id
    exact h.contains_iff_distance
  · intro id hid hseed
    exact hdisjoint id (Register.contains_iff.mp ((hc id).mpr hseed)) id hid rfl

theorem Searched.mem_ids (h : Searched contents seeds depth closure last asked)
    (hd : ∃ distance < depth, contents.Distance seeds distance id) : id ∈ contents.ids := by
  obtain ⟨bundle, hb⟩ := Option.isSome_iff_exists.mp ((h.contains_iff id).mpr (.inr hd))
  obtain ⟨stored, hs, hid, _⟩ := h.mirrors id bundle hb
  exact Contents.mem_ids.mpr ⟨stored, hs, hid⟩

theorem collectAncestors_leads (hd : before.contents.ids.Nodup)
    (hm : cache.Mirrors before.contents) (hc : ∀ id, cache.contains id = true ↔ id ∈ seeds)
    {result : Except StoreError (List BundleId) × Cache}
    (hl : (cache.collectAncestors seeds depth).Leads supply before events result after) :
    (∀ closure, result.1 = .ok closure → ∃ asked, events.map Event.call = asked.map .fetchBundle ∧
        Searched before.contents seeds depth closure result.2 asked) ∧
      ∀ error, result.1 = .error error → ∃ id,
        (∃ distance < depth, before.contents.Distance seeds distance id) ∧
          ⟨.fetchBundle id, .error error⟩ ∈ events := by
  have hstart := Frontier.start hm hc
  obtain ⟨_, hgathered⟩ := (rounds_ensures hd depth hstart).of_leads hl
  obtain ⟨hok, herror⟩ := rounds_fills hd depth hstart hl
  rw [Nat.zero_add] at herror
  refine ⟨fun closure hclosure => ?_, herror⟩
  obtain ⟨asked, hcalls, hids⟩ := (hok closure hclosure).exists_ids
  exact ⟨asked, hcalls, (hgathered closure hclosure).searched hc hids⟩

/-- On a store that never fails a call, a search fails only at a bundle that is not stored. -/
theorem collectAncestors_run (hd : before.contents.ids.Nodup)
    (hm : cache.Mirrors before.contents) (hc : ∀ id, cache.contains id = true ↔ id ∈ seeds)
    {error : StoreError}
    (he : ((cache.collectAncestors seeds depth).run (Stock.handle supply) before).1.1 =
      .error error) :
    ∃ id, error = .noBundle id ∧ id ∉ before.contents.ids ∧
      ∃ distance < depth, before.contents.Distance seeds distance id := by
  obtain ⟨events, hl, hanswers⟩ :=
    exists_leads_of_reads supply (cache.collectAncestors seeds depth) before
  have horderly : (cache.collectAncestors seeds depth).Orderly Call.Reads fun _ => True :=
    rounds_orderly (fun _ => trivial) seeds [] cache depth seeds
  obtain ⟨id, hdist, hevent⟩ := (collectAncestors_leads hd hm hc hl).2 error he
  have hanswer : .error error = before.contents.fetchBundle id :=
    (hanswers (horderly.of_leads hl).2.1 _ hevent).trans
      (Stock.handle_fetchBundle supply before id)
  rw [Contents.fetchBundle] at hanswer
  split at hanswer
  · cases hanswer
  · rename_i hnone
    exact ⟨id, Except.error.inj hanswer, Contents.bundle?_eq_none_iff.mp hnone, hdist⟩

/-- **Collecting ancestors is a breadth-first search**, bounded by the depth.  If it ends well, then
with the layers in front of the seeds; no bundle is asked for twice, and no seed.  Unless a call is
made to fail, it ends well exactly if everything is stored that is less far up than the depth, and
otherwise with the failure to find such a bundle. -/
theorem collectAncestors_searches (supply : IdSupply) (schedule : List (Nat × StoreError))
    (recorded : Recorded) (cache : Cache) (seeds : List BundleId) (depth : Nat)
    (hd : recorded.store.contents.ids.Nodup) (hm : cache.Mirrors recorded.store.contents)
    (hc : ∀ id, cache.contains id = true ↔ id ∈ seeds) :
    let contents := recorded.store.contents
    let ran := (cache.collectAncestors seeds depth).run (Recorded.handle supply schedule) recorded
    (∀ closure, ran.1.1 = .ok closure → ∃ asked : List BundleId,
        ran.2.calls = recorded.calls ++ asked.map .fetchBundle ∧
        Searched contents seeds depth closure ran.1.2 asked) ∧
      (schedule = [] → recorded.store.failures = [] →
        ((∃ error, ran.1.1 = .error error) ↔ ∃ id, id ∉ contents.ids ∧
          ∃ distance < depth, contents.Distance seeds distance id) ∧
        ∀ error, ran.1.1 = .error error → ∃ id, error = .noBundle id ∧ id ∉ contents.ids ∧
          ∃ distance < depth, contents.Distance seeds distance id) := by
  intro contents ran
  obtain ⟨events, hl, hcalls⟩ :=
    Recorded.exists_leads supply schedule (cache.collectAncestors seeds depth) recorded
  have hok : ∀ closure, ran.1.1 = .ok closure → ∃ asked : List BundleId,
      ran.2.calls = recorded.calls ++ asked.map .fetchBundle ∧
        Searched contents seeds depth closure ran.1.2 asked := by
    intro closure hclosure
    obtain ⟨asked, hasked, hsearched⟩ := (collectAncestors_leads hd hm hc hl).1 closure hclosure
    exact ⟨asked, hcalls.trans (by rw [hasked]), hsearched⟩
  refine ⟨hok, fun hschedule hfailures => ?_⟩
  subst hschedule
  have hrun := (Recorded.run_eq supply (cache.collectAncestors seeds depth) hfailures).1
  have herror : ∀ error, ran.1.1 = .error error → ∃ id, error = .noBundle id ∧
      id ∉ contents.ids ∧ ∃ distance < depth, contents.Distance seeds distance id := by
    intro error he
    exact collectAncestors_run hd hm hc (hrun ▸ he)
  refine ⟨⟨?_, ?_⟩, herror⟩
  · rintro ⟨error, he⟩
    obtain ⟨id, _, hunstored⟩ := herror error he
    exact ⟨id, hunstored⟩
  · rintro ⟨id, hunstored, hdist⟩
    cases houtcome : ran.1.1 with
    | error error => exact ⟨error, rfl⟩
    | ok closure =>
        obtain ⟨asked, _, hsearched⟩ := hok closure houtcome
        exact absurd (hsearched.mem_ids hdist) hunstored

/-- Around the ring every stored bundle is found, and then one that is not stored. -/
theorem collectAncestors_searches_ring :
    let cache := Cache.ofBundles [(Bundle.mounting .run "a" (some "a") ["b"]).explained]
    let collect := fun depth => (cache.collectAncestors ["a"] depth).run
      (Recorded.handle Stock.strokes []) (.ofStore .ring)
    Store.ring.contents.ids.Nodup ∧ cache.Mirrors Store.ring.contents ∧
      (∀ id, cache.contains id = true ↔ id ∈ ["a"]) ∧
      (collect 3).1.1 = .ok ["lost", "c", "b", "a"] ∧
      (∃ asked, (collect 3).2.calls = asked.map .fetchBundle ∧
        Searched Store.ring.contents ["a"] 3 ["lost", "c", "b", "a"] (collect 3).1.2 asked) ∧
      (collect 4).1.1 = .error (.noBundle "lost") ∧
      ∃ id, id ∉ Store.ring.contents.ids ∧
        ∃ distance < 4, Store.ring.contents.Distance ["a"] distance id := by
  intro cache collect
  have hd : Store.ring.contents.ids.Nodup := by decide
  have hm : cache.Mirrors Store.ring.contents := by
    refine mirrors_ofBundles (List.forall_mem_singleton.mpr ?_)
    exact ⟨.mounting .run "a" (some "a") ["b"], List.mem_cons_self, rfl⟩
  have hc : ∀ id, cache.contains id = true ↔ id ∈ ["a"] := fun id => contains_ofBundles
  have hsearch := fun depth =>
    collectAncestors_searches Stock.strokes [] (.ofStore .ring) cache ["a"] depth hd hm hc
  have hfound : (collect 3).1.1 = .ok ["lost", "c", "b", "a"] := by decide
  have hfailed : (collect 4).1.1 = .error (.noBundle "lost") := by decide
  obtain ⟨asked, hcalls, hsearched⟩ := (hsearch 3).1 _ hfound
  refine ⟨hd, hm, hc, hfound, ⟨asked, hcalls, hsearched⟩, hfailed, ?_⟩
  exact ((hsearch 4).2 rfl rfl).1.mp ⟨_, hfailed⟩

end Cache

end Provenance
