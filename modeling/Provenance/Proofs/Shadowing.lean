import Provenance.Proofs.Additions
import Provenance.Proofs.Itinerary
import Provenance.Proofs.Phases

/-!
# Where shadowing puts new bundles

A request with shadowing has the store put each new bundle behind the items for the old one, one call
after another, and each on worksheets that the calls before have changed.  Altogether this amounts to
one change of the worksheets there were at first: `Contents.shadowAll` puts behind every item the
counterpart of its bundle, and at the end of the target those whose old bundles no worksheet has.

* `Contents.placeNew_shadowAll`: one more new bundle is one more pair.
* `Replayer.settleAll_creations`: the new bundles are created in the order of the plan, at most one
  for each old bundle.
* `Request.replay_shadows`: this is what a whole replay does to the worksheets.
-/

namespace Provenance

open Dialogue Reporting

/-! ### One change for many -/

/-- An item, and behind it one for the counterpart of its bundle if there is one. -/
def WorksheetItem.shadowedBy (pairs : List (BundleId × BundleId)) (item : WorksheetItem) :
    List WorksheetItem :=
  match item.bundleId?.bind fun old => pairs.lookup old with
  | some new => [item, .bundle new]
  | none => [item]

/-- The worksheet with counterparts behind the items for old bundles. -/
def Worksheet.shadowAll (pairs : List (BundleId × BundleId)) (worksheet : Worksheet) : Worksheet :=
  { worksheet with items := worksheet.items.flatMap (·.shadowedBy pairs) }

namespace Contents

/-- The counterparts of those old bundles that are on no worksheet. -/
def homeless (contents : Contents) (pairs : List (BundleId × BundleId)) : List BundleId :=
  (pairs.filter fun pair =>
    ¬ contents.worksheets.any fun worksheet => worksheet.containsBundle pair.1).map Prod.snd

/-- The worksheets with counterparts behind the items for old bundles, and at the end of the target
those that have no such place. -/
def shadowAll (contents : Contents) (target : WorksheetId) (pairs : List (BundleId × BundleId)) :
    List Worksheet :=
  contents.worksheets.map fun worksheet =>
    (worksheet.shadowAll pairs).appendAll
      (if worksheet.id = target then (contents.homeless pairs).map .bundle else [])

end Contents

section

variable {pairs : List (BundleId × BundleId)} {old new : BundleId} {target : WorksheetId}
  {items : List WorksheetItem}

namespace WorksheetItem

theorem shadowedBy_nil (item : WorksheetItem) : item.shadowedBy [] = [item] := by
  cases item <;> rfl

theorem shadowedBy_append_of_ne {item : WorksheetItem} (h : item.bundleId? ≠ some old) :
    item.shadowedBy (pairs ++ [(old, new)]) = item.shadowedBy pairs := by
  cases item with
  | bundle id =>
      have hne : (id == old) = false := by simpa [bundleId?] using h
      simp [shadowedBy, bundleId?, List.lookup_append, List.lookup_cons, hne]
  | markup value => rfl
  | directive value => rfl
  | other value => rfl

theorem ne_of_mem_shadowedBy {item other : WorksheetItem} (hnew : old ∉ pairs.map Prod.snd)
    (hitem : item.bundleId? ≠ some old) (h : other ∈ item.shadowedBy pairs) :
    other.bundleId? ≠ some old := by
  unfold shadowedBy at h
  split at h
  · rename_i found hfound
    obtain ⟨id, _, hlookup⟩ := Option.bind_eq_some_iff.mp hfound
    obtain ⟨front, back, hpairs, _⟩ := List.lookup_eq_some_iff.mp hlookup
    rcases List.mem_cons.mp h with rfl | h
    · exact hitem
    · obtain rfl := List.mem_singleton.mp h
      rintro ⟨⟩
      exact hnew (by simp [hpairs])
  · obtain rfl := List.mem_singleton.mp h
    exact hitem

theorem flatMap_shadowedBy (hold : old ∉ pairs.map Prod.fst) (hnew : old ∉ pairs.map Prod.snd)
    (item : WorksheetItem) :
    (item.shadowedBy pairs).flatMap
        (fun other => if other.bundleId? = some old then [other, .bundle new] else [other]) =
      item.shadowedBy (pairs ++ [(old, new)]) := by
  by_cases hitem : item.bundleId? = some old
  · have hnone : pairs.lookup old = none := by
      refine List.lookup_eq_none_iff.mpr fun pair hpair => ?_
      have hne : old ≠ pair.1 := fun he => hold (he ▸ List.mem_map_of_mem hpair)
      simpa using hne
    simp [shadowedBy, hitem, hnone, List.lookup_append]
  · rw [shadowedBy_append_of_ne hitem]
    refine (List.flatMap_congr fun other ho => ?_).trans (List.flatMap_singleton' _)
    rw [if_neg (ne_of_mem_shadowedBy hnew hitem ho)]

end WorksheetItem

namespace Worksheet

variable {worksheet : Worksheet}

theorem shadowAll_nil (worksheet : Worksheet) : worksheet.shadowAll [] = worksheet := by
  simp [shadowAll, WorksheetItem.shadowedBy_nil]

theorem shadow_shadowAll (hold : old ∉ pairs.map Prod.fst) (hnew : old ∉ pairs.map Prod.snd) :
    (worksheet.shadowAll pairs).shadow old new = worksheet.shadowAll (pairs ++ [(old, new)]) := by
  simp only [shadow, shadowAll, List.flatMap_assoc,
    WorksheetItem.flatMap_shadowedBy hold hnew]

theorem shadowAll_append_of_not_contains (h : worksheet.containsBundle old = false) :
    worksheet.shadowAll (pairs ++ [(old, new)]) = worksheet.shadowAll pairs := by
  have hne : ∀ item ∈ worksheet.items, item.bundleId? ≠ some old := by
    simpa [containsBundle] using h
  simp only [shadowAll]
  congr 1
  exact List.flatMap_congr fun item hi => WorksheetItem.shadowedBy_append_of_ne (hne item hi)

theorem containsBundle_shadowAll (hnew : old ∉ pairs.map Prod.snd) :
    (worksheet.shadowAll pairs).containsBundle old = worksheet.containsBundle old := by
  rw [Bool.eq_iff_iff]
  simp only [containsBundle, shadowAll, List.any_eq_true, decide_eq_true_eq, List.mem_flatMap]
  constructor
  · rintro ⟨other, ⟨item, hi, ho⟩, hother⟩
    refine ⟨item, hi, ?_⟩
    by_contra hitem
    exact WorksheetItem.ne_of_mem_shadowedBy hnew hitem ho hother
  · rintro ⟨item, hi, hitem⟩
    refine ⟨item, ⟨item, hi, ?_⟩, hitem⟩
    unfold WorksheetItem.shadowedBy
    split <;> exact List.mem_cons_self

/-- Items at the end that are not for the old bundle stay at the end. -/
theorem shadow_appendAll (h : ∀ item ∈ items, item.bundleId? ≠ some old) :
    (worksheet.appendAll items).shadow old new = (worksheet.shadow old new).appendAll items := by
  have hitems : items.flatMap
      (fun item => if item.bundleId? = some old then [item, .bundle new] else [item]) = items := by
    refine (List.flatMap_congr fun item hi => ?_).trans (List.flatMap_singleton' _)
    rw [if_neg (h item hi)]
  simp only [shadow, appendAll, List.flatMap_append, hitems]

theorem containsBundle_appendAll (h : ∀ item ∈ items, item.bundleId? ≠ some old) :
    (worksheet.appendAll items).containsBundle old = worksheet.containsBundle old := by
  have hnone : items.any (fun item => item.bundleId? = some old) = false := by simpa using h
  simp [containsBundle, appendAll, hnone]

end Worksheet

namespace Contents

variable {initial current : Contents}

theorem shadowAll_nil (contents : Contents) (target : WorksheetId) :
    contents.shadowAll target [] = contents.worksheets := by
  simp [shadowAll, homeless, Worksheet.shadowAll_nil, Worksheet.appendAll_nil]

theorem map_id_shadowAll (contents : Contents) (target : WorksheetId)
    (pairs : List (BundleId × BundleId)) :
    (contents.shadowAll target pairs).map Worksheet.id = contents.worksheets.map Worksheet.id := by
  rw [shadowAll, List.map_map]
  rfl

theorem placeNew_worksheets_congr {contents other : Contents}
    (h : contents.worksheets = other.worksheets) (new : BundleId) (target : WorksheetId)
    (placement : CreatePlacement) :
    (contents.placeNew new target placement).worksheets =
      (other.placeNew new target placement).worksheets := by
  cases placement with
  | detached => exact h
  | shadow old =>
      simp only [placeNew, h]
      cases other.worksheets.any fun worksheet => worksheet.containsBundle old with
      | true => rfl
      | false => exact congrArg (modifyWorksheet target (·.append (.bundle new))) h

theorem homeless_append (contents : Contents) (pairs : List (BundleId × BundleId))
    (old new : BundleId) :
    contents.homeless (pairs ++ [(old, new)]) = contents.homeless pairs ++
      if contents.worksheets.any fun worksheet => worksheet.containsBundle old then []
      else [new] := by
  rw [homeless, List.filter_append, List.map_append, homeless, List.filter_singleton]
  cases contents.worksheets.any fun worksheet => worksheet.containsBundle old <;> rfl

/-- **Placing one more new bundle** is shadowing with one more pair, if neither its old bundle nor a
new one was shadowed before. -/
theorem placeNew_shadowAll (hw : (initial.worksheets.map Worksheet.id).Nodup)
    (hcurrent : current.worksheets = initial.shadowAll target pairs)
    (hold : old ∉ pairs.map Prod.fst) (hnew : old ∉ pairs.map Prod.snd) :
    (current.placeNew new target (.shadow old)).worksheets =
      initial.shadowAll target (pairs ++ [(old, new)]) := by
  have htail : ∀ worksheet : Worksheet, ∀ item ∈
      (if worksheet.id = target then (initial.homeless pairs).map WorksheetItem.bundle else []),
      item.bundleId? ≠ some old := by
    intro worksheet item hi
    split at hi
    · obtain ⟨id, hid, rfl⟩ := List.mem_map.mp hi
      rintro ⟨⟩
      obtain ⟨pair, hpair, hsnd⟩ := List.mem_map.mp hid
      exact hnew (List.mem_map.mpr ⟨pair, (List.mem_filter.mp hpair).1, hsnd⟩)
    · cases hi
  have hcontains : current.worksheets.any (fun worksheet => worksheet.containsBundle old) =
      initial.worksheets.any fun worksheet => worksheet.containsBundle old := by
    rw [hcurrent, shadowAll, List.any_map]
    congr 1
    funext worksheet
    rw [Function.comp_apply, Worksheet.containsBundle_appendAll (htail worksheet),
      Worksheet.containsBundle_shadowAll hnew]
  rw [placeNew, hcontains]
  cases hany : initial.worksheets.any fun worksheet => worksheet.containsBundle old with
  | true =>
      have hhome : initial.homeless (pairs ++ [(old, new)]) = initial.homeless pairs := by
        rw [homeless_append, hany, if_pos rfl, List.append_nil]
      rw [if_pos rfl, hcurrent, shadowAll, shadowAll, List.map_map, hhome]
      refine List.map_congr_left fun worksheet _ => ?_
      rw [Function.comp_apply, Worksheet.shadow_appendAll (htail worksheet),
        Worksheet.shadow_shadowAll hold hnew]
  | false =>
      have hhome : initial.homeless (pairs ++ [(old, new)]) = initial.homeless pairs ++ [new] := by
        rw [homeless_append, hany, if_neg (by simp)]
      have hids := hw
      rw [← map_id_shadowAll initial target pairs, ← hcurrent] at hids
      rw [if_neg (by simp), addItem, modifyWorksheet_eq_map hids, hcurrent, shadowAll, shadowAll,
        List.map_map, hhome]
      refine List.map_congr_left fun worksheet hworksheet => ?_
      have hnot : worksheet.containsBundle old = false := by
        simpa using List.any_eq_false.mp hany worksheet hworksheet
      rw [Function.comp_apply, Worksheet.shadowAll_append_of_not_contains hnot]
      by_cases hid : worksheet.id = target
      · simp [hid, Worksheet.appendAll, Worksheet.append, Worksheet.shadowAll]
      · simp [hid, Worksheet.appendAll, Worksheet.shadowAll]

end Contents

end

/-! ### What the calls add up to -/

/-- The bundle behind whose items a call is to put a new one. -/
def Call.shadowed? : Call → Option BundleId
  | createBundle _ _ (.shadow old) => some old
  | _ => none

/-- The bundles behind whose items new ones are put, in the order of the events. -/
def Event.olds (events : List Event) : List BundleId :=
  events.filterMap fun event => event.call.shadowed?

/-- Old bundles, each with the id of the counterpart that is created for it in its turn, when so many
ids were given out before. -/
def IdSupply.counterparts (supply : IdSupply) (allocated : Nat) (olds : List BundleId) :
    List (BundleId × BundleId) :=
  olds.mapIdx fun number old => (old, supply (allocated + number))

namespace IdSupply

variable {supply : IdSupply} {allocated : Nat} {old : BundleId} {olds : List BundleId}

theorem counterparts_cons : supply.counterparts allocated (old :: olds) =
    (old, supply allocated) :: supply.counterparts (allocated + 1) olds := by
  simp [counterparts, List.mapIdx_cons, Nat.add_assoc, Nat.add_comm 1]

theorem exists_of_mem_counterparts {new : BundleId}
    (h : new ∈ (supply.counterparts allocated olds).map Prod.snd) :
    ∃ number, allocated ≤ number ∧ new = supply number := by
  induction olds generalizing allocated with
  | nil => cases h
  | cons old olds ih =>
      rw [counterparts_cons, List.map_cons] at h
      rcases List.mem_cons.mp h with rfl | h
      · exact ⟨allocated, Nat.le_refl _, rfl⟩
      · obtain ⟨number, hle, hnew⟩ := ih h
        exact ⟨number, by omega, hnew⟩

end IdSupply

variable {supply : IdSupply} {request : Request} {before after : Stock}

/-- With shadowing, an admitted call either leaves the stock alone or puts one new bundle behind an old
one. -/
theorem Stock.Serves.shadows {call : Call} {answer : call.Answer}
    (h : before.Serves supply call (.ok answer) after) (ha : request.Admits call)
    (hs : request.shadow = true) :
    (call.shadowed? = none ∧ after = before) ∨
      ∃ old, call.shadowed? = some old ∧ after.allocated = before.allocated + 1 ∧
        after.contents.worksheets = (before.contents.placeNew (supply before.allocated)
          request.worksheet (.shadow old)).worksheets := by
  cases call with
  | fetchBundles => exact .inl ⟨rfl, h.fetchBundles.2⟩
  | fetchBundle => exact .inl ⟨rfl, h.fetchBundle.2⟩
  | fetchWorksheetsByBundle => exact .inl ⟨rfl, h.fetchWorksheetsByBundle.2⟩
  | fetchWorksheet => exact .inl ⟨rfl, h.fetchWorksheet.2⟩
  | createBundle description target placement =>
      obtain ⟨_, rfl, old, rfl⟩ := ha
      have hplacement : Replayer.placement request old = .shadow old := by
        rw [Replayer.placement, if_pos hs]
      refine .inr ⟨old, by rw [hplacement]; rfl, h.createBundle.2.2, ?_⟩
      rw [h.createBundle_eq.2, hplacement]
      refine Contents.placeNew_worksheets_congr ?_ _ _ _
      rfl
  | createWorksheetItem item target =>
      have hnone : request.shadow = false := ha.2.1
      rw [hs] at hnone
      cases hnone
  | searchBundles => exact .inl ⟨rfl, h.searchBundles.2⟩

/-- **What a dialogue does to the worksheets** that makes the calls of a request with shadowing: it
shadows the old bundles all at once, if they are distinct and no new bundle is one of them. -/
theorem Dialogue.Leads.shadowAll {α : Type} {dialogue : Dialogue α} {events : List Event} {result : α}
    {initial : Contents} {pairs : List (BundleId × BundleId)}
    (h : dialogue.Leads supply before events result after) (hok : ∀ event ∈ events, event.Succeeded)
    (ha : ∀ event ∈ events, request.Admits event.call) (hs : request.shadow = true)
    (hw : (initial.worksheets.map Worksheet.id).Nodup)
    (hbefore : before.contents.worksheets = initial.shadowAll request.worksheet pairs)
    (hn : (pairs.map Prod.fst ++ Event.olds events).Nodup)
    (hnew : ∀ old ∈ Event.olds events, old ∉
      (pairs ++ supply.counterparts before.allocated (Event.olds events)).map Prod.snd) :
    after.contents.worksheets = initial.shadowAll request.worksheet
      (pairs ++ supply.counterparts before.allocated (Event.olds events)) := by
  induction h generalizing pairs with
  | done => rw [hbefore]; exact congrArg _ (List.append_nil pairs).symm
  | @ask call next outcome before mid after events result hserves _ ih =>
      obtain ⟨answer, rfl⟩ : ∃ answer : call.Answer, outcome = .ok answer := hok _ List.mem_cons_self
      have hok' := fun event he => hok event (List.mem_cons_of_mem _ he)
      have ha' := fun event he => ha event (List.mem_cons_of_mem _ he)
      rcases hserves.shadows (ha _ List.mem_cons_self) hs with
        ⟨hnone, rfl⟩ | ⟨old, hsome, hallocated, hworksheets⟩
      · have holds : Event.olds (⟨call, .ok answer⟩ :: events) = Event.olds events :=
          List.filterMap_cons_none hnone
        rw [holds] at hn hnew ⊢
        exact ih hok' ha' hbefore hn hnew
      · have holds : Event.olds (⟨call, .ok answer⟩ :: events) = old :: Event.olds events :=
          List.filterMap_cons_some hsome
        rw [holds] at hn hnew ⊢
        rw [IdSupply.counterparts_cons, ← hallocated, List.append_cons] at hnew ⊢
        obtain ⟨_, hrest, hdisjoint⟩ := List.nodup_append.mp hn
        have hold : old ∉ pairs.map Prod.fst :=
          fun hmem => hdisjoint old hmem old List.mem_cons_self rfl
        have holdNew : old ∉ pairs.map Prod.snd := by
          intro hmem
          refine hnew old List.mem_cons_self ?_
          rw [List.map_append, List.map_append]
          exact List.mem_append_left _ (List.mem_append_left _ hmem)
        refine ih hok' ha' ?_ ?_ fun other ho => hnew other (List.mem_cons_of_mem _ ho)
        · rw [hworksheets]
          exact Contents.placeNew_shadowAll hw hbefore hold holdNew
        · rw [List.map_append, List.append_assoc]
          exact hn

/-! ### Whose counterparts are created -/

theorem Request.AdmitsFor.shadowed?_eq {call : Call} {old : BundleId}
    (h : request.AdmitsFor old call) (hs : request.shadow = true) :
    call.shadowed? = call.description?.map fun _ => old := by
  cases call with
  | createBundle description target placement =>
      obtain ⟨_, _, rfl⟩ := h
      rw [Replayer.placement, if_pos hs]
      rfl
  | fetchBundles => rfl
  | fetchBundle => rfl
  | fetchWorksheetsByBundle => rfl
  | fetchWorksheet => rfl
  | createWorksheetItem => rfl
  | searchBundles => rfl

namespace Replayer

variable {cache : Cache} {replayer next last : Replayer} {events : List Event}

/-- Settling a bundle creates its counterpart and plans it, or creates nothing. -/
theorem settle_creation {id : BundleId} (hs : request.shadow = true)
    (h : (replayer.settle request cache id).Leads supply before events (.ok next) after) :
    (Event.olds events = [] ∧ after.allocated = before.allocated ∧
        ∃ more, next.plan = replayer.plan ++ more) ∨
      (Event.olds events = [id] ∧ after.allocated = before.allocated + 1 ∧
        ∃ old made, cache.get? id = some old ∧ next.plan = replayer.plan ++ [⟨old, made⟩] ∧
          made.id = some (supply before.allocated)) := by
  obtain ⟨_, hadmits, hsucceeded⟩ := (settle_orderly request cache replayer id).of_leads h
  obtain ⟨hallocated, _⟩ := h.grows (hsucceeded rfl)
  have holds : Event.olds events =
      (events.filterMap fun event => event.call.description?).map fun _ => id := by
    rw [Event.olds, List.map_filterMap]
    exact List.filterMap_congr fun event he => (hadmits event he).shadowed?_eq hs
  have hnothing : after = before → Event.olds events = [] := by
    rintro rfl
    rw [holds, List.length_eq_zero_iff.mp (Nat.left_eq_add.mp hallocated), List.map_nil]
  cases ((settle_ensures request cache replayer id).of_leads h).2 next rfl with
  | keep hc => exact .inl ⟨hnothing rfl, rfl, [], (List.append_nil _).symm⟩
  | resolve hc hr =>
      cases hr with
      | unaffected => exact .inl ⟨hnothing rfl, rfl, [], (List.append_nil _).symm⟩
      | planned => exact .inl ⟨hnothing rfl, rfl, _, rfl⟩
      | reused => exact .inl ⟨hnothing rfl, rfl, _, rfl⟩
      | created _ _ _ _ hserves =>
          obtain ⟨rfl, _, hone⟩ := hserves.createBundle
          rw [hone] at hallocated
          obtain ⟨wanted, hwanted⟩ := List.length_eq_one_iff.mp (Nat.add_left_cancel hallocated).symm
          refine .inr ⟨by rw [holds, hwanted]; rfl, hone, _, _, hc, rfl, rfl⟩

/-- **In the order of the plan**, counterparts are created for some of the bundles that are settled. -/
theorem settleAll_creations {ids : List BundleId} (hs : request.shadow = true) (hk : cache.Keyed)
    (h : (replayer.settleAll request cache ids).Leads supply before events (.ok (), last) after) :
    (Event.olds events).Sublist ids ∧ (∀ old ∈ Event.olds events, cache.contains old = true) ∧
      ∃ more, last.plan = replayer.plan ++ more ∧
        ((supply.counterparts before.allocated (Event.olds events)).map fun pair =>
            (some pair.1, some pair.2)).Sublist
          (more.map fun entry => (entry.old.id, entry.new.id)) := by
  induction ids generalizing replayer before events with
  | nil =>
      obtain ⟨rfl, hlast, _⟩ := h.of_pure
      cases hlast
      exact ⟨.slnil, List.forall_mem_nil _, [], (List.append_nil _).symm, .slnil⟩
  | cons id ids ih =>
      obtain ⟨first, second, outcome, mid, rfl, hsettle, h⟩ := h.of_bind
      cases outcome with
      | error error =>
          obtain ⟨_, hlast, _⟩ := h.of_pure
          cases hlast
      | ok next =>
          obtain ⟨hids, hcached, more, hplan, hpairs⟩ := ih h
          have holds : Event.olds (first ++ second) = Event.olds first ++ Event.olds second :=
            List.filterMap_append
          rw [holds]
          rcases settle_creation hs hsettle with
            ⟨hnone, hallocated, extra, hnext⟩ | ⟨hone, hallocated, old, made, hold, hnext, hmade⟩
          · rw [hnone, List.nil_append, ← hallocated]
            refine ⟨hids.cons id, hcached, extra ++ more, ?_, ?_⟩
            · rw [hplan, hnext, List.append_assoc]
            · rw [List.map_append]
              exact hpairs.trans (List.sublist_append_right _ _)
          · rw [hone, List.singleton_append, IdSupply.counterparts_cons, ← hallocated]
            refine ⟨hids.cons_cons id, List.forall_mem_cons.mpr ⟨?_, hcached⟩, ⟨old, made⟩ :: more, ?_, ?_⟩
            · simp [Register.contains, hold]
            · rw [hplan, hnext, List.append_assoc, List.singleton_append]
            · rw [List.map_cons, List.map_cons, hk id old hold, hmade]
              exact hpairs.cons_cons _

end Replayer

/-! ### The whole replay -/

namespace Request

theorem Consults.shadowed?_eq_none {call : Call} (h : request.Consults call) :
    call.shadowed? = none := by
  cases call <;> first | rfl | exact h.elim

theorem olds_of_consults {events : List Event} (h : ∀ event ∈ events, request.Consults event.call) :
    Event.olds events = [] :=
  List.filterMap_eq_nil_iff.mpr fun event he => (h event he).shadowed?_eq_none

/-- The old bundles whose counterparts a replay creates are stored; each has one counterpart, which the
plan has for it, too, in the same order. -/
theorem olds_of_leads_replay (hs : request.shadow = true) {events : List Event} {replayed : Replayed}
    (h : request.replay.Leads supply before events (.ok replayed) after) :
    (Event.olds events).Nodup ∧ (∀ old ∈ Event.olds events, old ∈ before.contents.ids) ∧
      ((supply.counterparts before.allocated (Event.olds events)).map fun pair =>
          (some pair.1, some pair.2)).Sublist
        (replayed.plan.map fun entry => (entry.old.id, entry.new.id)) := by
  obtain ⟨_, last, named, replayer, mid, rfl, htraverse, hfinish⟩ := of_leads_replay h
  obtain ⟨first, second, third, cache, closure, _, hnamed, hresolved, hcollect, hsubstitute, rfl⟩ :=
    of_leads_traverse_ok htraverse
  have hshadow : named.shadow = true := by rw [hnamed]; exact hs
  rw [finish_eq_pure (.inr hshadow)] at hfinish
  obtain ⟨rfl, hreplayed, _⟩ := hfinish.of_pure
  cases hreplayed
  -- only what is settled is created
  have hfirst := olds_of_consults ((resolved_orderly request).of_leads hresolved).2.1
  have hsecond := olds_of_consults ((collect_orderly named).of_leads hcollect).2.1
  have holds : Event.olds (first ++ (second ++ third) ++ []) = Event.olds third := by
    simp only [Event.olds, List.filterMap_append] at hfirst hsecond ⊢
    rw [hfirst, hsecond]
    simp
  have hmirrors : cache.Mirrors before.contents :=
    ((collect_mirrors named).of_leads hcollect).2 (cache, closure) rfl
  obtain ⟨ids, hids, hitinerary⟩ :=
    Replayer.exists_itinerary cache (.start named) (named.targets closure)
  rw [hitinerary named (.start named) fun _ => Iff.rfl] at hsubstitute
  obtain ⟨hsub, hcached, more, hplan, hpairs⟩ :=
    Replayer.settleAll_creations hshadow hmirrors.keyed hsubstitute
  rw [holds, hplan]
  refine ⟨hids.nodup.sublist hsub, ?_, hpairs⟩
  intro old ho
  obtain ⟨bundle, hbundle⟩ := Option.isSome_iff_exists.mp (hcached old ho)
  obtain ⟨stored, hstored, hid, _⟩ := hmirrors old bundle hbundle
  exact Contents.mem_ids.mpr ⟨stored, hstored, hid⟩

/-- With shadowing, new bundles are put behind old ones, and no items elsewhere. -/
theorem Admits.shadows {call : Call} (h : request.Admits call) (hs : request.shadow = true) :
    call.operation ≠ .createWorksheetItem ∧
      (call.operation = .createBundle → call.shadowed?.isSome = true) := by
  cases call with
  | fetchBundles => refine ⟨?_, ?_⟩ <;> rintro ⟨⟩
  | fetchBundle => refine ⟨?_, ?_⟩ <;> rintro ⟨⟩
  | fetchWorksheetsByBundle => refine ⟨?_, ?_⟩ <;> rintro ⟨⟩
  | fetchWorksheet => refine ⟨?_, ?_⟩ <;> rintro ⟨⟩
  | createBundle description target placement =>
      obtain ⟨_, _, old, rfl⟩ := h
      refine ⟨?_, fun _ => ?_⟩
      · rintro ⟨⟩
      · rw [Replayer.placement, if_pos hs]
        rfl
  | createWorksheetItem item target =>
      have hnone : request.shadow = false := h.2.1
      rw [hs] at hnone
      cases hnone
  | searchBundles => refine ⟨?_, ?_⟩ <;> rintro ⟨⟩

/-- **Where a replay with shadowing puts new bundles.**  When it succeeds, the worksheets are as they
were but for the counterparts that were created: each item for an old bundle is followed by one for its
counterpart, and at the end of the target are the counterparts of the old bundles that no worksheet had.
`olds` are the bundles that counterparts were created for, each once; the plan has the same counterparts
for them, in the same order.  No call puts an item on a worksheet. -/
theorem replay_shadows (request : Request) (supply : IdSupply) (schedule : List (Nat × StoreError))
    (recorded : Recorded) (hs : request.shadow = true) (hfresh : recorded.stock.Fresh supply)
    (hw : (recorded.store.contents.worksheets.map Worksheet.id).Nodup) {replayed : Replayed}
    (hr : (request.replay.run (Recorded.handle supply schedule) recorded).1 = .ok replayed) :
    let final := (request.replay.run (Recorded.handle supply schedule) recorded).2
    ∃ calls, final.calls = recorded.calls ++ calls ∧
      (∀ call ∈ calls, call.operation ≠ .createWorksheetItem ∧
        (call.operation = .createBundle → call.shadowed?.isSome = true)) ∧
      let olds := calls.filterMap Call.shadowed?
      let pairs := supply.counterparts recorded.store.allocated olds
      olds.Nodup ∧
      (pairs.map fun pair => (some pair.1, some pair.2)).Sublist
        (replayed.plan.map fun entry => (entry.old.id, entry.new.id)) ∧
      final.store.contents.worksheets =
        recorded.store.contents.shadowAll request.worksheet pairs := by
  intro final
  obtain ⟨events, hleads, hcalls⟩ := Recorded.exists_leads supply schedule request.replay recorded
  rw [hr] at hleads
  obtain ⟨_, hadmits, hsucceeded⟩ := (replay_orderly request).of_leads hleads
  obtain ⟨hnodup, hstored, hpairs⟩ := olds_of_leads_replay hs hleads
  have holds : (events.map Event.call).filterMap Call.shadowed? = Event.olds events :=
    List.filterMap_map
  refine ⟨events.map Event.call, hcalls, ?_, ?_⟩
  · intro call hcall
    obtain ⟨event, he, rfl⟩ := List.mem_map.mp hcall
    exact (hadmits event he).shadows hs
  · dsimp only
    rw [holds]
    refine ⟨hnodup, hpairs, ?_⟩
    have hbefore : recorded.stock.contents.worksheets =
        recorded.store.contents.shadowAll request.worksheet [] :=
      (Contents.shadowAll_nil _ _).symm
    refine hleads.shadowAll (hsucceeded rfl) hadmits hs hw hbefore hnodup ?_
    -- new ids are fresh, and old ones are stored
    intro old ho hmem
    obtain ⟨number, hle, rfl⟩ := IdSupply.exists_of_mem_counterparts hmem
    exact hfresh.new number hle (hstored _ ho)

end Request

/-- The diamond with two worksheets: the target, which has what was trained, and notes that have what was
prepared twice.  The evaluation is on neither. -/
def Store.annotated : Store :=
  .ofContents { diamond.contents with
    worksheets := [⟨"w", "work", none, [.bundle "train"]⟩,
      ⟨"n", "notes", none, [.markup "# Data", .bundle "raw", .bundle "prep", .markup "",
        .bundle "prep"]⟩] }

namespace Request

/-- A request to replay the diamond, with each new bundle behind the old one. -/
def shadowed : Request :=
  { diamond (some "eval") with shadow := true }

/-- The replay of the annotated diamond puts what it prepares behind each of the old items, and the
evaluation at the end of the target. -/
theorem annotated_shadows :
    let run := shadowed.replay.run (Recorded.handle Stock.strokes []) (.ofStore Store.annotated)
    run.1.isOk = true ∧ run.2.calls.filterMap Call.shadowed? = ["prep", "train", "eval"] ∧
      run.2.store.contents.worksheets = Store.annotated.contents.shadowAll "w"
        [("prep", "|"), ("train", "||"), ("eval", "|||")] ∧
      run.2.store.contents.worksheets.map Worksheet.items =
        [[.bundle "train", .bundle "||", .bundle "|||"],
          [.markup "# Data", .bundle "raw", .bundle "prep", .bundle "|", .markup "", .bundle "prep",
            .bundle "|"]] := by
  have hok : (shadowed.replay.run (Recorded.handle Stock.strokes [])
      (.ofStore Store.annotated)).1.isOk = true := by decide +kernel
  have holds : (shadowed.replay.run (Recorded.handle Stock.strokes [])
      (.ofStore Store.annotated)).2.calls.filterMap Call.shadowed? = ["prep", "train", "eval"] := by
    decide +kernel
  have hpairs : IdSupply.counterparts Stock.strokes 0 ["prep", "train", "eval"] =
      [("prep", "|"), ("train", "||"), ("eval", "|||")] := by decide +kernel
  refine ⟨hok, holds, ?_, by decide +kernel⟩
  obtain ⟨replayed, hr⟩ := exists_ok_of_isOk hok
  obtain ⟨calls, hcalls, _, _, _, hworksheets⟩ := replay_shadows shadowed Stock.strokes []
    (.ofStore Store.annotated) rfl (Stock.fresh_strokes (by decide)) (by decide) hr
  rw [show (Recorded.ofStore Store.annotated).calls = [] from rfl, List.nil_append] at hcalls
  rw [hcalls] at holds
  rw [hworksheets, holds]
  exact congrArg _ hpairs

end Request

end Provenance
