import Provenance.Proofs.Classification
import Provenance.Proofs.Rewriting
import Provenance.Proofs.Trace

/-!
# The books of a replay

A `Replayer` keeps four books: what stands in for which bundle, which bundles are downstream of a
replaced one, which were created, and the plan.  They are written in different places, and a walk may
break off between any two of its moves.  `Books` says how they agree nevertheless, on any graph.

* `Books.record` and `Books.map`: the two ways of making an entry keep the books.
* `substituteEach_books`: they agree after any number of walks, each of which may fail at any call,
  and the bundles that count as created are those of the calls that have created one.
-/

namespace Provenance

open Dialogue

namespace Replayer

/-- The books of a replay of a request agree. -/
structure Books (request : Request) (replayer : Replayer) : Prop where
  /-- No bundle is planned twice. -/
  distinct : replayer.plan.oldIds.Nodup
  /-- What is planned for a bundle stands in for it; no old input is planned. -/
  planned : ∀ entry ∈ replayer.plan, ∃ id, entry.old.id = some id ∧ id ∉ request.oldInputs ∧
    replayer.substitutions.get? id = some entry.new.id
  /-- The new input at its first position stands in for an old one. -/
  inputs : ∀ id ∈ request.oldInputs, ∃ new,
    request.newInputs[request.oldInputs.idxOf id]? = some new ∧
      replayer.substitutions.get? id = some (some new)
  /-- Whatever else is mapped stands in for itself. -/
  others : ∀ id target, replayer.substitutions.get? id = some target → id ∉ request.oldInputs →
    id ∉ replayer.plan.oldIds → target = some id
  /-- There are placeholders in dry runs only. -/
  targets : request.dryRun = false → ∀ id, replayer.substitutions.get? id ≠ some none
  downstream : ∀ id, id ∈ replayer.downstream ↔
    id ∈ request.oldInputs ∨ id ∈ replayer.plan.oldIds

variable {supply : IdSupply} {stock after : Stock} {request : Request} {cache : Cache}
  {replayer next : Replayer} {ids : List BundleId} {id current : BundleId} {old made : Bundle}

namespace Books

theorem find?_zip {olds news : List BundleId} (hid : id ∈ olds) (h : news.length = olds.length) :
    ∃ new, news[olds.idxOf id]? = some new ∧
      ((olds.zip news).find? fun pair => pair.1 = id) = some (id, new) := by
  induction olds generalizing news with
  | nil => cases hid
  | cons first olds ih =>
      cases news with
      | nil => cases h
      | cons new news =>
          by_cases hfirst : first = id
          · subst hfirst
            exact ⟨new, by rw [List.idxOf_cons_self]; rfl, by simp⟩
          · have hrest := (List.mem_cons.mp hid).resolve_left (Ne.symm hfirst)
            obtain ⟨target, htarget, hfind⟩ := ih hrest (Nat.succ.inj h)
            refine ⟨target, ?_, ?_⟩
            · rw [List.idxOf_cons_ne olds hfirst]
              exact htarget
            · simpa [hfirst] using hfind

theorem start (hv : request.validate = .ok ()) : Books request (Replayer.start request) := by
  have hlength := Request.length_newInputs hv
  have hpairs : request.pairs.map Prod.fst = request.oldInputs :=
    List.map_fst_zip (Nat.le_of_eq hlength.symm)
  refine ⟨List.nodup_nil, List.forall_mem_nil _, ?_, ?_, ?_, ?_⟩
  · intro id hid
    obtain ⟨new, hnew, hfind⟩ := find?_zip hid hlength
    exact ⟨new, hnew, by rw [get?_start, Request.pairs, hfind]; rfl⟩
  · intro id target ht hn
    have hc : (Replayer.start request).substitutions.contains id = true := by
      simp [Register.contains, ht]
    rw [contains_start, hpairs] at hc
    exact absurd hc hn
  · intro _ id hnone
    rw [get?_start, Option.map_eq_some_iff] at hnone
    obtain ⟨_, _, hnone⟩ := hnone
    cases hnone
  · intro id
    change id ∈ request.pairs.map Prod.fst ↔ _
    rw [hpairs]
    simp [Replayer.start, Plan.oldIds]

theorem contains_of_planned (h : Books request replayer) (hid : id ∈ replayer.plan.oldIds) :
    replayer.substitutions.contains id = true := by
  obtain ⟨entry, he, hold⟩ := Plan.mem_oldIds.mp hid
  obtain ⟨own, hown, _, hget⟩ := h.planned entry he
  obtain rfl := Option.some.inj (hold.symm.trans hown)
  simp [Register.contains, hget]

theorem map (h : Books request replayer) :
    Books request (replayer.map current (some current)) := by
  refine ⟨h.distinct, ?_, ?_, ?_, ?_, h.downstream⟩
  · intro entry he
    obtain ⟨id, hid, hn, hget⟩ := h.planned entry he
    exact ⟨id, hid, hn, Register.get?_add_of_some hget⟩
  · intro id hid
    obtain ⟨new, hnew, hget⟩ := h.inputs id hid
    exact ⟨new, hnew, Register.get?_add_of_some hget⟩
  · intro id target ht hn hp
    rw [map_substitutions, Register.get?_add] at ht
    split at ht
    · rename_i hadded
      rw [hadded.1]
      exact (Option.some.inj ht).symm
    · exact h.others id target ht hn hp
  · intro hdry id hnone
    rw [map_substitutions, Register.get?_add] at hnone
    split at hnone
    · cases hnone
    · exact h.targets hdry id hnone

theorem record (h : Books request replayer) (hc : ¬ replayer.substitutions.contains current = true)
    (hold : old.id = some current) (hmade : request.dryRun = false → made.id.isSome = true)
    (hs : next.substitutions = replayer.substitutions.add current made.id)
    (hd : next.downstream = current :: replayer.downstream)
    (hp : next.plan = replayer.plan ++ [⟨old, made⟩]) : Books request next := by
  have hids : next.plan.oldIds = replayer.plan.oldIds ++ [current] := by
    rw [hp, Plan.oldIds_concat _ hold]
  have hinput : current ∉ request.oldInputs := by
    intro hi
    obtain ⟨new, _, hget⟩ := h.inputs current hi
    exact hc (by simp [Register.contains, hget])
  refine ⟨?_, ?_, ?_, ?_, ?_, ?_⟩
  · rw [hids, List.nodup_append]
    refine ⟨h.distinct, List.nodup_singleton current, ?_⟩
    intro id hid other hother he
    obtain rfl := List.mem_singleton.mp hother
    exact hc (h.contains_of_planned (he ▸ hid))
  · intro entry he
    rw [hp, List.mem_append, List.mem_singleton] at he
    rw [hs]
    rcases he with he | rfl
    · obtain ⟨id, hid, hn, hget⟩ := h.planned entry he
      exact ⟨id, hid, hn, Register.get?_add_of_some hget⟩
    · exact ⟨current, hold, hinput, Register.get?_add_self _ hc⟩
  · intro id hid
    obtain ⟨new, hnew, hget⟩ := h.inputs id hid
    rw [hs]
    exact ⟨new, hnew, Register.get?_add_of_some hget⟩
  · intro id target ht hn hplanned
    rw [hids, List.mem_append, List.mem_singleton, not_or] at hplanned
    rw [hs, Register.get?_add, if_neg fun hadded => hplanned.2 hadded.1] at ht
    exact h.others id target ht hn hplanned.1
  · intro hdry id hnone
    rw [hs, Register.get?_add] at hnone
    split at hnone
    · have hsome := hmade hdry
      rw [Option.some.inj hnone] at hsome
      cases hsome
    · exact h.targets hdry id hnone
  · intro id
    rw [hd, hids, List.mem_cons, List.mem_append, List.mem_singleton, h.downstream]
    tauto

end Books

/-! ### What walks keep -/

/-- The books agree with each other and with the store: `initial` are the ids that were stored at the
beginning. -/
structure Audited (request : Request) (initial : List BundleId) (replayer : Replayer)
    (stock : Stock) : Prop where
  books : Books request replayer
  isSome : ∀ bundle ∈ stock.contents.bundles, bundle.id.isSome = true
  created : stock.contents.ids = initial ++ replayer.created

theorem Audited.resolve {initial : List BundleId} (h : Audited request initial replayer stock)
    (hc : ¬ replayer.substitutions.contains current = true) (hold : old.id = some current)
    (hr : Resolution supply request replayer current old stock next after) :
    Audited request initial next after := by
  cases hr with
  | unaffected => exact ⟨h.books.map, h.isSome, h.created⟩
  | planned _ hd =>
      refine ⟨h.books.record hc hold ?_ rfl rfl rfl, h.isSome, h.created⟩
      intro hdry
      rw [hd] at hdry
      cases hdry
  | reused _ _ _ hs =>
      obtain ⟨stored, hstored, _, rfl⟩ := Contents.exists_of_getLast?_searchBundles hs
      have hid : stored.explained.id.isSome = true := h.isSome stored hstored
      exact ⟨h.books.record hc hold (fun _ => hid) rfl rfl rfl, h.isSome, h.created⟩
  | created _ _ _ _ hs =>
      obtain ⟨rfl, hbundles, _⟩ := hs.createBundle
      refine ⟨h.books.record hc hold (fun _ => rfl) rfl rfl rfl, ?_, ?_⟩
      · rw [hbundles, List.forall_mem_append]
        exact ⟨h.isSome, List.forall_mem_singleton.mpr rfl⟩
      · rw [hs.createBundle_ids, h.created, List.append_assoc]
        rfl

theorem kept_audited (hk : cache.Keyed) (first : Replayer) (ids initial : List BundleId) :
    Kept supply request cache first ids (Audited request initial) where
  keep h _ _ _ := ⟨h.books.map, h.isSome, h.created⟩
  resolve h hc _ ho _ hr := h.resolve hc (hk _ _ ho) hr

theorem kept_mapped (first : Replayer) (ids : List BundleId) :
    Kept supply request cache first ids fun later _ => ∀ id target,
      first.substitutions.get? id = some target → later.substitutions.get? id = some target where
  keep h _ _ _ id target ht := Register.get?_add_of_some (h id target ht)
  resolve h _ _ _ _ hr id target ht := by
    obtain ⟨new, hn⟩ := hr.exists_add
    rw [hn]
    exact Register.get?_add_of_some (h id target ht)

/-- **The books agree at all times**: for every graph, with or without cycles, after asking for any
bundles in any order, whichever calls fail.  Among the events of the store are exactly the creations
of the bundles that count as created, and whatever is asked for afterwards, what is mapped stays. -/
theorem substituteEach_books (supply : IdSupply) (schedule : List (Nat × StoreError))
    (recorded : Recorded) (request : Request) (cache : Cache) (ids more : List BundleId)
    (hv : request.validate = .ok ()) (hk : cache.Keyed)
    (hs : ∀ bundle ∈ recorded.store.contents.bundles, bundle.id.isSome = true) :
    let handler := (Recorded.handle supply schedule).logging
    let first := ((start request).substituteEach request cache ids).run handler (recorded, [])
    let last := (first.1.substituteEach request cache more).run handler first.2
    Books request first.1 ∧ first.1.created = first.2.2.filterMap Event.createdId? ∧
      ∀ id target, first.1.substitutions.get? id = some target →
        last.1.substitutions.get? id = some target := by
  intro handler first last
  have hserves := (Recorded.handle_serves supply schedule).logging
  have hstart : Audited request recorded.stock.contents.ids (start request) recorded.stock :=
    ⟨.start hv, hs, (List.append_nil _).symm⟩
  have hens : ((start request).substituteEach request cache ids).Ensures supply recorded.stock
      (Audited request recorded.stock.contents.ids) :=
    substituteEach_ensures (fun _ hid => hid) (kept_audited hk _ ids _) hstart
  have haudited : Audited request recorded.stock.contents.ids first.1 first.2.1.stock :=
    hens.run hserves
  have hmore : (first.1.substituteEach request cache more).Ensures supply first.2.1.stock _ :=
    substituteEach_ensures (fun _ hid => hid) (kept_mapped first.1 more) fun _ _ ht => ht
  refine ⟨haudited.books, ?_, hmore.run hserves⟩
  -- The ids that are stored tell both what is booked and what the events have created.
  obtain ⟨events, hlog, hleads⟩ := exists_leads_logging (Recorded.handle_serves supply schedule)
    ((start request).substituteEach request cache ids) recorded []
  have hlog : first.2.2 = events := hlog
  rw [hlog]
  exact List.append_cancel_left (haudited.created.symm.trans hleads.ids_eq)

/-- The state after asking for a bundle on the cycle, when the second of its two could not be made. -/
def halfway : Replayer × Recorded × List Event :=
  ((start replaceRaw).substituteEach replaceRaw (.ofBundles loop) ["right"]).run
    (Recorded.handle Stock.strokes [(1, .transport "gone")]).logging (.ofStore (.ofBundles loop), [])

/-- The state after asking for it again. -/
def askedAgain : Replayer × Recorded × List Event :=
  (halfway.1.substituteEach replaceRaw (.ofBundles loop) ["right"]).run
    (Recorded.handle Stock.strokes [(1, .transport "gone")]).logging halfway.2

/-- The books agree halfway, and what stands in for the first bundle of the cycle is still the same
when the second is made. -/
theorem halfway_books : halfway.1.plan.oldIds = ["left"] ∧
    askedAgain.1.plan.oldIds = ["left", "right"] ∧ Books replaceRaw halfway.1 ∧
    halfway.2.2.filterMap Event.createdId? = ["|"] ∧
    askedAgain.1.substitutions.get? "left" = some (some "|") := by
  have hfirst : halfway.1.plan.oldIds = ["left"] := by decide
  have hlast : askedAgain.1.plan.oldIds = ["left", "right"] := by decide
  have hcreated : halfway.1.created = ["|"] := by decide
  have hleft : halfway.1.substitutions.get? "left" = some (some "|") := by decide
  obtain ⟨hbooks, hevents, hkept⟩ := substituteEach_books Stock.strokes [(1, .transport "gone")]
    (.ofStore (.ofBundles loop)) replaceRaw (.ofBundles loop) ["right"] ["right"] (by decide)
    (Cache.keyed_ofBundles loop) (by decide)
  exact ⟨hfirst, hlast, hbooks, hevents.symm.trans hcreated, hkept "left" _ hleft⟩

end Replayer

end Provenance
