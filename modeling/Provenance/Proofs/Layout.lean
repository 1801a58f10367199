import Provenance.Proofs.Additions
import Provenance.Proofs.Phases

/-!
# When new bundles can be laid out

Laying out needs no more than that the bundles that are put somewhere are stored, and that there is
a worksheet to put them on.

* `Placement.run_place`: with these it succeeds, unless a call fails.
* `Placement.place_target`: it does not succeed without the worksheet.
-/

namespace Provenance

open Dialogue

/-! ### Worksheets that exist -/

namespace Contents

variable {contents earlier : Contents} {id : WorksheetId}

theorem isSome_worksheet?_iff : (contents.worksheet? id).isSome = true ↔
    id ∈ contents.worksheets.map fun worksheet => worksheet.summary.id := by
  simp [worksheet?, Worksheet.summary]

theorem map_summary {later earlier : List Worksheet}
    (h : List.Forall₂ Worksheet.Extends later earlier) :
    later.map Worksheet.summary = earlier.map Worksheet.summary := by
  induction h with
  | nil => rfl
  | cons hw _ ih => rw [List.map_cons, List.map_cons, hw.summary, ih]

theorem Extends.isSome_worksheet?_iff (h : contents.Extends earlier) :
    (contents.worksheet? id).isSome = true ↔ (earlier.worksheet? id).isSome = true := by
  have hids : ∀ worksheets : List Worksheet, worksheets.map (fun worksheet => worksheet.summary.id) =
      (worksheets.map Worksheet.summary).map WorksheetSummary.id :=
    fun worksheets => List.map_map.symm
  rw [Contents.isSome_worksheet?_iff, Contents.isSome_worksheet?_iff, hids, hids, map_summary h.worksheets]

end Contents

namespace Stock

variable {supply : IdSupply} {stock : Stock}

theorem handle_createWorksheetItem {item : WorksheetItem} {target : WorksheetId}
    (hb : ∀ id, item.bundleId? = some id → id ∈ stock.contents.ids)
    (ht : (stock.contents.worksheet? target).isSome = true) :
    handle supply (.createWorksheetItem item target) stock =
      (.ok item, ⟨stock.contents.addItem item target, stock.allocated⟩) := by
  have hfilter : item.bundleId?.filter (fun id => (stock.contents.bundle? id).isNone) = none := by
    rw [Option.filter_eq_none_iff]
    intro id hid
    have hstored := Contents.bundle?_isSome_iff.mpr (hb id hid)
    cases hbundle : stock.contents.bundle? id with
    | none => simp [hbundle] at hstored
    | some bundle => simp
  obtain ⟨worksheet, hworksheet⟩ := Option.isSome_iff_exists.mp ht
  have hcontents : (Store.ofStock stock).contents = stock.contents := rfl
  simp [handle, Store.answer, Store.createWorksheetItem, hcontents, hfilter, hworksheet]
  rfl

end Stock

namespace Placement

variable {supply : IdSupply} {stock : Stock} {target : WorksheetId} {substitutions : Substitutions}
  {created : List BundleId} {plan : Plan} {layoutItems : List (List WorksheetItem × BundleId)}

/-! ### What is put on the target -/

/-- Preludes have no bundles, and what follows them was created. -/
theorem mem_layout {prelude items : List WorksheetItem}
    (hp : ∀ item ∈ prelude, item.bundleId? = none) :
    ∀ placed ∈ layout substitutions created prelude items,
      (∀ item ∈ placed.1, item.bundleId? = none) ∧ placed.2 ∈ created := by
  induction items generalizing prelude with
  | nil => exact List.forall_mem_nil _
  | cons item items ih =>
      rw [layout]
      split
      · rename_i hitem
        refine ih fun other ho => ?_
        rcases List.mem_append.mp ho with ho | ho
        · exact hp other ho
        · obtain rfl := List.mem_singleton.mp ho
          cases other <;> first | rfl | cases hitem
      · have hrest := ih (List.forall_mem_nil _)
        dsimp only
        split
        · rename_i new hnew
          intro placed hplaced
          rcases List.mem_cons.mp hplaced with rfl | hplaced
          · obtain ⟨old, _, hbind⟩ := Option.bind_eq_some_iff.mp hnew
            obtain ⟨found, _, hfilter⟩ := Option.bind_eq_some_iff.mp hbind
            exact ⟨hp, by simpa using (Option.filter_eq_some_iff.mp hfilter).2⟩
          · exact hrest placed hplaced
        · exact hrest

theorem bundleId?_of_mem {skipPrelude : Bool} {item : WorksheetItem} {id : BundleId}
    (hl : ∀ placed ∈ layoutItems, (∀ item ∈ placed.1, item.bundleId? = none) ∧ placed.2 ∈ created)
    (hc : ∀ id ∈ created, id ∈ plan.newIds)
    (hi : item ∈ items skipPrelude layoutItems ++
      (unplaced plan (layoutItems.map Prod.snd)).map .bundle)
    (hid : item.bundleId? = some id) : id ∈ plan.newIds := by
  rcases List.mem_append.mp hi with hi | hi
  · obtain ⟨placed, hplaced, hmem⟩ := List.mem_flatMap.mp hi
    obtain ⟨hprelude, hnew⟩ := hl placed hplaced
    rcases List.mem_append.mp hmem with hmem | hmem
    · cases skipPrelude with
      | true => cases hmem
      | false =>
          rw [hprelude item hmem] at hid
          cases hid
    · obtain rfl := List.mem_singleton.mp hmem
      cases hid
      exact hc _ hnew
  · obtain ⟨new, hnew, rfl⟩ := List.mem_map.mp hi
    cases hid
    exact (List.mem_filter.mp hnew).1

/-- A plan with new bundles puts something on the target. -/
theorem items_ne_nil (skipPrelude : Bool) (hn : plan.newIds ≠ []) :
    items skipPrelude layoutItems ++ (unplaced plan (layoutItems.map Prod.snd)).map .bundle ≠ [] := by
  intro hnil
  obtain ⟨hitems, hunplaced⟩ := List.append_eq_nil_iff.mp hnil
  obtain ⟨id, hid⟩ := List.exists_mem_of_ne_nil _ hn
  have hplaced : id ∈ layoutItems.map Prod.snd := by
    by_contra hnot
    have hmem : id ∈ unplaced plan (layoutItems.map Prod.snd) :=
      List.mem_filter.mpr ⟨hid, by simpa using hnot⟩
    rw [List.map_eq_nil_iff.mp hunplaced] at hmem
    cases hmem
  obtain ⟨placed, hplaced, _⟩ := List.mem_map.mp hplaced
  have hmem : WorksheetItem.bundle placed.2 ∈ items skipPrelude layoutItems :=
    List.mem_flatMap.mpr ⟨placed, hplaced, by simp⟩
  rw [hitems] at hmem
  cases hmem

theorem items_eq_nil (skipPrelude : Bool)
    (hl : ∀ placed ∈ layoutItems, (∀ item ∈ placed.1, item.bundleId? = none) ∧ placed.2 ∈ created)
    (hc : ∀ id ∈ created, id ∈ plan.newIds) (hn : plan.newIds = []) :
    items skipPrelude layoutItems ++ (unplaced plan (layoutItems.map Prod.snd)).map .bundle = [] := by
  have hlayout : layoutItems = [] := by
    refine List.eq_nil_iff_forall_not_mem.mpr fun placed hplaced => ?_
    have hnew := hc _ (hl placed hplaced).2
    rw [hn] at hnew
    cases hnew
  simp [hlayout, items, unplaced, hn]

/-! ### Putting it there -/

theorem run_putItems {items : List WorksheetItem}
    (hb : ∀ item ∈ items, ∀ id, item.bundleId? = some id → id ∈ stock.contents.ids)
    (ht : items ≠ [] → (stock.contents.worksheet? target).isSome = true) :
    ((putItems target items).run (Stock.handle supply) stock).1 = .ok () := by
  induction items generalizing stock with
  | nil => rfl
  | cons item items ih =>
      have htarget := ht (List.cons_ne_nil _ _)
      have hitem : Stock.handle supply (.createWorksheetItem item target) stock = _ :=
        Stock.handle_createWorksheetItem (hb item List.mem_cons_self) htarget
      rw [putItems, run_bind, run_call, hitem]
      refine ih (fun other ho => hb other (List.mem_cons_of_mem _ ho)) fun _ => ?_
      exact (Contents.Extends.addItem stock.contents item target).isSome_worksheet?_iff.mpr htarget

theorem putItems_target (items : List WorksheetItem) :
    (putItems target items).Ensures supply stock fun result _ =>
      result = .ok () → items ≠ [] → (stock.contents.worksheet? target).isSome = true := by
  cases items with
  | nil => exact fun _ h => absurd rfl h
  | cons item items =>
      rw [putItems, ensures_bind, ensures_call]
      intro outcome after hs
      cases outcome with
      | error error =>
          intro hput
          cases hput
      | ok made =>
          have htarget := hs.createWorksheetItem_eq.1
          exact (putItems_ensures target items).mono fun _ _ _ _ _ => htarget

theorem mem_of_host? {hosts : List WorksheetSummary} {host : WorksheetId}
    (h : host? target hosts = some host) : ∃ summary ∈ hosts, summary.id = host := by
  unfold host? at h
  split at h
  · rename_i summary hfind
    cases h
    exact ⟨summary, List.mem_of_find?_eq_some hfind, rfl⟩
  · obtain ⟨summary, hhead, rfl⟩ := Option.map_eq_some_iff.mp h
    exact ⟨summary, List.mem_of_head? hhead, rfl⟩

theorem run_hosts (supply : IdSupply) (stock : Stock) (target : WorksheetId)
    (anchor : Option BundleId) : ∃ found,
      (hosts anchor).run (Stock.handle supply) stock = (.ok found, stock) ∧
      ∀ host, host? target found = some host → (stock.contents.worksheet? host).isSome = true := by
  cases anchor with
  | none => exact ⟨[], rfl, nofun⟩
  | some anchor =>
      refine ⟨_, rfl, fun host hhost => ?_⟩
      obtain ⟨summary, hsummary, rfl⟩ := mem_of_host? hhost
      obtain ⟨worksheet, hworksheet, rfl⟩ := List.mem_map.mp hsummary
      refine Contents.isSome_worksheet?_iff.mpr (List.mem_map.mpr ⟨worksheet, ?_, rfl⟩)
      exact (List.mem_filter.mp hworksheet).1

theorem run_hostLayout (supply : IdSupply) (substitutions : Substitutions)
    (created : List BundleId) {host : Option WorksheetId}
    (hh : ∀ id, host = some id → (stock.contents.worksheet? id).isSome = true) : ∃ found,
      (hostLayout substitutions created host).run (Stock.handle supply) stock = (.ok found, stock) ∧
      ∀ placed ∈ found, (∀ item ∈ placed.1, item.bundleId? = none) ∧ placed.2 ∈ created := by
  cases host with
  | none => exact ⟨[], rfl, List.forall_mem_nil _⟩
  | some host =>
      obtain ⟨worksheet, hworksheet⟩ := Option.isSome_iff_exists.mp (hh host rfl)
      have hfetch : Stock.handle supply (.fetchWorksheet host) stock = (.ok worksheet, stock) := by
        have hcontents : (Store.ofStock stock).contents = stock.contents := rfl
        simp [Stock.handle, Store.answer, Contents.fetchWorksheet, hcontents, hworksheet, Except.map]
        rfl
      refine ⟨layout substitutions created [] worksheet.items, ?_, mem_layout (List.forall_mem_nil _)⟩
      rw [hostLayout, run_bind, run_call, hfetch]
      rfl

/-- **Laying out succeeds** when the new bundles of the plan are stored and, if there are any, the
target exists. -/
theorem run_place (hc : ∀ id ∈ created, id ∈ plan.newIds)
    (hb : ∀ id ∈ plan.newIds, id ∈ stock.contents.ids)
    (ht : plan.newIds ≠ [] → (stock.contents.worksheet? target).isSome = true)
    (anchor : Option BundleId) (skipPrelude : Bool) : ∃ report,
      ((place plan substitutions created target anchor skipPrelude).run (Stock.handle supply)
        stock).1 = .ok report := by
  obtain ⟨found, hfound, hexists⟩ := run_hosts supply stock target anchor
  obtain ⟨layoutItems, hlayout, hmem⟩ := run_hostLayout supply substitutions created hexists
  have hput : ((putItems target (items skipPrelude layoutItems ++
      (unplaced plan (layoutItems.map Prod.snd)).map .bundle)).run (Stock.handle supply) stock).1 =
        .ok () := by
    refine run_putItems (fun item hi id hid => hb id (bundleId?_of_mem hmem hc hi hid)) ?_
    intro hne
    exact ht fun hnil => hne (items_eq_nil skipPrelude hmem hc hnil)
  simp [place, run_bind, hfound, hlayout, hput]

theorem place_target (hn : plan.newIds ≠ []) (substitutions : Substitutions)
    (created : List BundleId) (anchor : Option BundleId) (skipPrelude : Bool) :
    (place plan substitutions created target anchor skipPrelude).Ensures supply stock
      fun result _ => ∀ report, result = .ok report →
        (stock.contents.worksheet? target).isSome = true := by
  unfold place
  refine Ensures.bind (hosts_finds anchor) ?_
  rintro outcome after ⟨rfl, _⟩
  cases outcome with
  | error error => exact nofun
  | ok found =>
      refine Ensures.bind (hostLayout_finds substitutions created _) ?_
      rintro outcome mid ⟨rfl, _⟩
      cases outcome with
      | error error => exact nofun
      | ok layoutItems =>
          refine (putItems_target _).bind ?_
          intro outcome last hput
          cases outcome with
          | error error => exact nofun
          | ok _ => exact fun _ _ => hput rfl (items_ne_nil skipPrelude hn)

end Placement

namespace Request

variable {supply : IdSupply} {stock : Stock} {request : Request} {replayer : Replayer}

/-- Laying out what a replay made succeeds if its new bundles are stored and there is a target. -/
theorem run_layOut (hc : ∀ id ∈ replayer.created, id ∈ replayer.plan.newIds)
    (hb : ∀ id ∈ replayer.plan.newIds, id ∈ stock.contents.ids)
    (ht : request.shadow = false → replayer.plan.newIds ≠ [] →
      (stock.contents.worksheet? request.worksheet).isSome = true) :
    ∃ placement, ((request.layOut replayer).run (Stock.handle supply) stock).1 = .ok placement := by
  unfold layOut
  split
  · exact ⟨none, rfl⟩
  · rename_i h
    have hshadow : request.shadow = false := by simpa using fun hs => h (.inr hs)
    obtain ⟨report, hreport⟩ : ∃ report, ((Placement.place replayer.plan replayer.substitutions
        replayer.created request.worksheet request.anchor? request.skipPrelude).run
        (Stock.handle supply) stock).1 = .ok report :=
      Placement.run_place hc hb (ht hshadow) _ _
    exact ⟨some report, by rw [run_bind, hreport]; rfl⟩

/-- Without shadowing, a plan with new bundles is laid out on no target but one that exists. -/
theorem layOut_target (hd : request.dryRun = false) (hs : request.shadow = false)
    (hn : replayer.plan.newIds ≠ []) :
    (request.layOut replayer).Ensures supply stock fun result _ => ∀ placement,
      result = .ok placement → (stock.contents.worksheet? request.worksheet).isSome = true := by
  unfold layOut
  rw [if_neg (by simp [hd, hs])]
  refine (Placement.place_target hn _ _ _ _).bind ?_
  intro outcome after hplace
  cases outcome with
  | error error => exact nofun
  | ok report => exact fun _ _ => hplace report rfl

theorem run_finish {placement : Option PlacementReport}
    (h : ((request.layOut replayer).run (Stock.handle supply) stock).1 = .ok placement) :
    ((finish (request, replayer)).run (Stock.handle supply) stock).1 =
      .ok ⟨replayer.plan, placement⟩ := by
  simp [finish, run_bind, h]

theorem finish_target (hd : request.dryRun = false) (hs : request.shadow = false)
    (hn : replayer.plan.newIds ≠ []) :
    (finish (request, replayer)).Ensures supply stock fun result _ => ∀ replayed,
      result = .ok replayed → (stock.contents.worksheet? request.worksheet).isSome = true := by
  unfold finish
  refine (layOut_target hd hs hn).bind ?_
  intro outcome after hlayout
  cases outcome with
  | error error => exact nofun
  | ok placement => exact fun _ _ => hlayout placement rfl

end Request

end Provenance
