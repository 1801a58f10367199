import Provenance.Proofs.Phases
import Provenance.Proofs.Replacement

/-!
# The graph stays well formed

The provenance graph is `WellFormed` if no two bundles have the same id, no bundle is above itself, and
every parent is stored.  A bundle under a new id whose parents are stored keeps it so
(`WellFormed.append`), since no path comes back to it.  `Founded` says of all that was stored since
some time that it lies behind its parents.

`Rooted` is what walks keep: outside of a dry run, whatever stands in for a bundle is stored.  A parent
that nothing stands in for stays, and is stored as well.  So a new bundle gets stored parents only,
whichever calls have failed before it is made.

Main statement: `Request.replay_keeps_well_formed`.
-/

namespace Provenance

open Dialogue Relation

namespace Contents

/-- Ids are distinct, no bundle is above itself, and every parent is stored. -/
structure WellFormed (contents : Contents) : Prop where
  identified : contents.Identified
  acyclic : contents.Acyclic
  closed : ∀ bundle ∈ contents.bundles, ∀ parent ∈ bundle.parents, parent ∈ contents.ids

/-- What was stored since some earlier time lies behind all that was stored then, and each of these
bundles behind its parents. -/
def Founded (contents earlier : Contents) : Prop :=
  ∃ added, contents.bundles = earlier.bundles ++ added ∧
    ∀ front made back, added = front ++ made :: back → ∀ parent ∈ made.parents,
      ∃ bundle ∈ earlier.bundles ++ front, bundle.id = some parent

variable {contents after earlier : Contents} {made : Bundle} {id : BundleId}

/-! ### Another bundle -/

namespace WellFormed

theorem mem_ids_of_mentioned (h : contents.WellFormed) (hid : id ∈ contents.mentioned) :
    id ∈ contents.ids := by
  rcases List.mem_append.mp hid with hid | hid
  · exact hid
  · obtain ⟨bundle, hb, hp⟩ := List.mem_flatMap.mp hid
    exact h.closed bundle hb id hp

theorem congr (h : contents.WellFormed) (hb : after.bundles = contents.bundles) :
    after.WellFormed := by
  have hids : after.ids = contents.ids := by rw [ids, ids, hb]
  refine ⟨⟨?_, ?_⟩, ?_, ?_⟩
  · rw [hb]
    exact h.identified.isSome
  · rw [hb]
    exact h.identified.nodup
  · rw [Acyclic, edge_congr hb]
    exact h.acyclic
  · rw [hb, hids]
    exact h.closed

/-- **A bundle under a new id, with stored parents**, keeps the graph well formed. -/
theorem append (h : contents.WellFormed) (hb : after.bundles = contents.bundles ++ [made])
    (hid : made.id = some id) (hn : id ∉ contents.ids)
    (hparents : ∀ parent ∈ made.parents, parent ∈ contents.ids) : after.WellFormed := by
  have hstored : ∀ bundle ∈ after.bundles, ∀ parent ∈ bundle.parents, parent ∈ contents.ids := by
    intro bundle hmem
    rw [hb, List.mem_append, List.mem_singleton] at hmem
    rcases hmem with hmem | rfl
    · exact h.closed bundle hmem
    · exact hparents
  refine ⟨h.identified.append hb hid hn, h.acyclic.append hb hid ?_, ?_⟩
  · exact fun bundle hmem hp => hn (hstored bundle hmem id hp)
  · intro bundle hmem parent hp
    rw [ids_append hb hid]
    exact List.mem_append_left _ (hstored bundle hmem parent hp)

end WellFormed

namespace Founded

theorem refl (contents : Contents) : contents.Founded contents := by
  refine ⟨[], (List.append_nil _).symm, ?_⟩
  intro front made back hsplit
  exact absurd hsplit.symm (List.append_ne_nil_of_right_ne_nil front (List.cons_ne_nil made back))

theorem congr (h : contents.Founded earlier) (hb : after.bundles = contents.bundles) :
    after.Founded earlier := by
  obtain ⟨added, hadded, hparents⟩ := h
  exact ⟨added, hb.trans hadded, hparents⟩

theorem mem_ids (h : contents.Founded earlier) (hid : id ∈ earlier.ids) : id ∈ contents.ids := by
  obtain ⟨added, hadded, _⟩ := h
  rw [ids, hadded, List.filterMap_append]
  exact List.mem_append_left _ hid

theorem append (h : contents.Founded earlier) (hb : after.bundles = contents.bundles ++ [made])
    (hparents : ∀ parent ∈ made.parents, parent ∈ contents.ids) : after.Founded earlier := by
  obtain ⟨added, hadded, hbehind⟩ := h
  refine ⟨added ++ [made], by rw [hb, hadded, List.append_assoc], ?_⟩
  intro front other back hsplit parent hp
  rcases List.eq_nil_or_concat back with rfl | ⟨back, last, rfl⟩
  · obtain ⟨rfl, hlast⟩ := List.append_inj' hsplit rfl
    obtain rfl := List.singleton_inj.mp hlast
    rw [← hadded]
    exact Contents.mem_ids.mp (hparents parent hp)
  · have hsplit' : added ++ [made] = (front ++ other :: back) ++ [last] := by
      rw [hsplit, List.concat_eq_append, List.append_assoc, List.cons_append]
    exact hbehind front other back (List.append_inj' hsplit' rfl).1 parent hp

end Founded

end Contents

/-! ### What walks keep -/

namespace Replayer

variable {supply : IdSupply} {stock after : Stock} {request : Request} {cache : Cache}
  {replayer next : Replayer} {targets : List BundleId} {current parent : BundleId} {old : Bundle}
  {initial : Contents}

/-- What holds of the store and the mapping between two moves; `initial` is what was stored at the
beginning. -/
structure Rooted (supply : IdSupply) (request : Request) (initial : Contents) (replayer : Replayer)
    (stock : Stock) : Prop where
  fresh : stock.Fresh supply
  wellFormed : stock.contents.WellFormed
  founded : stock.contents.Founded initial
  stored : request.dryRun = false → ∀ id target, replayer.substitutions.get? id = some target →
    ∃ new ∈ stock.contents.ids, target = some new

namespace Rooted

theorem start (hf : stock.Fresh supply) (hw : stock.contents.WellFormed)
    (hn : request.Named stock.contents) :
    Rooted supply request stock.contents (start request) stock := by
  refine ⟨hf, hw, .refl _, ?_⟩
  intro _ id target ht
  rw [get?_start, Option.map_eq_some_iff] at ht
  obtain ⟨pair, hpair, rfl⟩ := ht
  exact ⟨pair.2, hn.newInputs pair.2 (List.of_mem_zip (List.mem_of_find?_eq_some hpair)).2, rfl⟩

theorem add (h : Rooted supply request initial replayer stock) (hf : after.Fresh supply)
    (hw : after.contents.WellFormed) (hg : after.contents.Founded initial)
    (hids : ∀ id ∈ stock.contents.ids, id ∈ after.contents.ids) {target : Option BundleId}
    (hs : next.substitutions = replayer.substitutions.add current target)
    (ht : request.dryRun = false → ∃ new ∈ after.contents.ids, target = some new) :
    Rooted supply request initial next after := by
  refine ⟨hf, hw, hg, ?_⟩
  intro hdry id found hfound
  rw [hs, Register.get?_add] at hfound
  split at hfound
  · cases hfound
    exact ht hdry
  · obtain ⟨new, hnew, he⟩ := h.stored hdry id found hfound
    exact ⟨new, hids new hnew, he⟩

theorem standIn_mem_ids (h : Rooted supply request initial replayer stock)
    (hdry : request.dryRun = false) (hp : parent ∈ stock.contents.ids) :
    replayer.standIn parent ∈ stock.contents.ids := by
  unfold standIn
  cases hget : replayer.substitutions.get? parent with
  | none => exact hp
  | some target =>
      obtain ⟨new, hnew, rfl⟩ := h.stored hdry parent target hget
      exact hnew

theorem resolve (h : Rooted supply request initial replayer stock)
    (hcurrent : current ∈ initial.ids) (hparents : ∀ parent ∈ old.parents, parent ∈ initial.ids)
    (hr : Resolution supply request replayer current old stock next after) :
    Rooted supply request initial next after := by
  cases hr with
  | unaffected =>
      exact h.add h.fresh h.wellFormed h.founded (fun _ hid => hid) rfl
        fun _ => ⟨current, h.founded.mem_ids hcurrent, rfl⟩
  | planned _ hd =>
      refine h.add h.fresh h.wellFormed h.founded (fun _ hid => hid) rfl fun hdry => ?_
      rw [hd] at hdry
      cases hdry
  | reused _ _ _ hs =>
      obtain ⟨stored, hmem, _, rfl⟩ := Contents.exists_of_getLast?_searchBundles hs
      obtain ⟨new, hnew⟩ := Option.isSome_iff_exists.mp (h.wellFormed.identified.isSome stored hmem)
      exact h.add h.fresh h.wellFormed h.founded (fun _ hid => hid) rfl
        fun _ => ⟨new, Contents.mem_ids.mpr ⟨stored, hmem, hnew⟩, hnew⟩
  | created _ hdry _ _ hs =>
      obtain ⟨rfl, hbundles, _⟩ := hs.createBundle
      have hids := hs.createBundle_ids
      have hnew : supply stock.allocated ∉ stock.contents.ids := h.fresh.new _ (Nat.le_refl _)
      have hmade : ∀ parent ∈ (stock.contents.newBundle (replayer.description request current old)
          (supply stock.allocated)).parents, parent ∈ stock.contents.ids := by
        intro parent hparent
        simp only [Bundle.parents, Contents.newBundle_dependencies, description_dependencies, standIns,
          List.map_map, List.mem_map, Function.comp_apply] at hparent
        obtain ⟨dependency, hd, rfl⟩ := hparent
        have habove := hparents dependency.parentId (List.mem_map_of_mem hd)
        exact h.standIn_mem_ids hdry (h.founded.mem_ids habove)
      refine h.add (h.fresh.createBundle hs) (h.wellFormed.append hbundles rfl hnew hmade)
        (h.founded.append hbundles hmade) ?_ rfl fun _ => ⟨_, ?_, rfl⟩
      · intro id hid
        rw [hids]
        exact List.mem_append_left _ hid
      · rw [hids]
        exact List.mem_append_right _ List.mem_cons_self

end Rooted

theorem kept_rooted (hm : cache.Mirrors initial) (hw : initial.WellFormed)
    (ht : ∀ target ∈ targets, target ∈ initial.mentioned) (first : Replayer) :
    Kept supply request cache first targets (Rooted supply request initial) where
  keep h _ hv _ := by
    have hcurrent := hw.mem_ids_of_mentioned (mem_mentioned_of_visits hm ht hv)
    exact h.add h.fresh h.wellFormed h.founded (fun _ hid => hid) rfl
      fun _ => ⟨_, h.founded.mem_ids hcurrent, rfl⟩
  resolve h _ hv ho _ hr := by
    refine h.resolve (hw.mem_ids_of_mentioned (mem_mentioned_of_visits hm ht hv)) ?_ hr
    intro parent hp
    exact hw.mem_ids_of_mentioned (Contents.mentioned_of_edge (hm.edge ⟨_, ho, hp⟩))

end Replayer

/-! ### Replays -/

namespace Request

/-- **A replay keeps the provenance graph well formed**, whatever it is asked for, whichever calls
fail and however it ends.  All that it has added lies behind its parents. -/
theorem replay_keeps_well_formed (request : Request) (supply : IdSupply)
    (schedule : List (Nat × StoreError)) (recorded : Recorded)
    (hf : recorded.stock.Fresh supply) (hw : recorded.store.contents.WellFormed) :
    let final := (request.replay.run (Recorded.handle supply schedule) recorded).2.store.contents
    final.WellFormed ∧ final.Founded recorded.store.contents := by
  intro final
  have hens : request.replay.Ensures supply recorded.stock _ :=
    replay_leaves request
      (fun _ _ => Replayer.Rooted supply (request.inIds recorded.stock.contents)
        recorded.stock.contents)
      hw.identified rfl fun cache closure hn _ hc => ⟨.start hf hw hn,
        Replayer.kept_rooted hc.mirrors hw (mem_mentioned_of_mem_targets hn hc) _⟩
  obtain ⟨mid, hmid, hbundles⟩ := hens.run (Recorded.handle_serves supply schedule)
  rcases hmid with rfl | ⟨_, _, replayer, _, hrooted⟩
  · exact ⟨hw.congr hbundles, (Contents.Founded.refl _).congr hbundles⟩
  · exact ⟨hrooted.wellFormed.congr hbundles, hrooted.founded.congr hbundles⟩

/-- The replay of the diamond ends when its third bundle is to be created, and what was created before
stays behind its parents. -/
theorem diamond_keeps_well_formed :
    let failed := (diamond (some "eval")).replay.run
      (Recorded.handle Stock.strokes [(9, .internal "full")]) (.ofStore Store.diamond)
    failed.1.isOk = false ∧
      failed.2.store.contents.ids = Store.diamond.contents.ids ++ ["|", "||"] ∧
      failed.2.store.contents.WellFormed ∧
      failed.2.store.contents.Founded Store.diamond.contents := by
  intro failed
  have hfailed : failed.1.isOk = false := by decide +kernel
  have hids : failed.2.store.contents.ids = Store.diamond.contents.ids ++ ["|", "||"] := by
    decide +kernel
  have hfresh : (Recorded.ofStore Store.diamond).stock.Fresh Stock.strokes :=
    Stock.fresh_strokes (by decide)
  have hordered : Store.diamond.contents.Ordered := by decide
  have hdiamond : Store.diamond.contents.WellFormed := ⟨by decide, hordered.acyclic, by decide⟩
  have h := replay_keeps_well_formed (diamond (some "eval")) Stock.strokes [(9, .internal "full")]
    (.ofStore Store.diamond) hfresh hdiamond
  exact ⟨hfailed, hids, h⟩

end Request

end Provenance
