import Mathlib.Data.List.Count
import Provenance.Proofs.Layout
import Provenance.Proofs.Refusal
import Provenance.Proofs.Resumption
import Provenance.Proofs.Slots

/-!
# How often a new bundle is put on the target

What follows the layout of the host is put down once for each slot, and what is left of the plan once
for each entry.  Hence a new bundle comes several times at the end if it stands in for several old ones.
That takes an equivalent bundle: those that are created have different ids.

* `Placement.place_occurs`: this is what laying out does.
* `Replayer.Distinct`: without equivalent bundles, the new bundles of a plan have different ids.
* `Request.replay_appends`: how often the new bundles of a whole replay occur.
* `Request.forked_appended_twice`: two old bundles are equivalent to the same new one.
-/

namespace Provenance

open Dialogue

theorem Contents.worksheet?_congr {contents other : Contents}
    (h : contents.worksheets = other.worksheets) : contents.worksheet? = other.worksheet? := by
  funext id
  rw [worksheet?, worksheet?, h]

/-! ### Laying out -/

namespace Placement

/-- How often bundles occur among the items that were put on the target for a plan, and in the report
on them: `initial` are the contents before, `final` those after. -/
structure Occurs (plan : Plan) (target : WorksheetId) (initial final : Contents)
    (added : List WorksheetItem) (report : PlacementReport) : Prop where
  /-- The items are at the end of the target. -/
  worksheets : final.worksheets =
    Contents.modifyWorksheet target (.appendAll added) initial.worksheets
  target : added ≠ [] → (initial.worksheet? target).isSome = true
  occurs : ∀ id ∈ plan.newIds, .bundle id ∈ added
  count : ∀ id, added.count (.bundle id) = report.placed.count id + report.appended.count id
  disjoint : ∀ id ∈ report.appended, id ∉ report.placed
  /-- What has no slot is put at the end once for each entry of the plan with it. -/
  appended : ∀ id, id ∉ report.placed → report.appended.count id = plan.newIds.count id

namespace Occurs

variable {plan : Plan} {target : WorksheetId} {initial final other : Contents}
  {added : List WorksheetItem} {report : PlacementReport}

theorem congr (h : Occurs plan target initial final added report)
    (hw : initial.worksheets = other.worksheets) : Occurs plan target other final added report where
  worksheets := hw ▸ h.worksheets
  target := Contents.worksheet?_congr hw ▸ h.target
  occurs := h.occurs
  count := h.count
  disjoint := h.disjoint
  appended := h.appended

theorem once (h : Occurs plan target initial final added report) (hn : plan.newIds.Nodup) :
    report.appended.Nodup ∧ ∀ id ∈ report.appended, added.count (.bundle id) = 1 := by
  have hle : ∀ id ∈ report.appended, report.appended.count id ≤ 1 := by
    intro id hid
    rw [h.appended id (h.disjoint id hid)]
    exact List.nodup_iff_count_le_one.mp hn id
  refine ⟨List.nodup_iff_count_le_one.mpr fun id => ?_, fun id hid => ?_⟩
  · by_cases hid : id ∈ report.appended
    · exact hle id hid
    · rw [List.count_eq_zero.mpr hid]
      exact Nat.zero_le 1
  · have hnone : report.placed.count id = 0 := List.count_eq_zero.mpr (h.disjoint id hid)
    have hsome : 0 < report.appended.count id := List.count_pos_iff.mpr hid
    have := hle id hid
    rw [h.count, hnone]
    omega

end Occurs

variable {supply : IdSupply} {stock : Stock}

theorem count_items (skipPrelude : Bool) {layoutItems : List (List WorksheetItem × BundleId)}
    (hl : ∀ placed ∈ layoutItems, ∀ item ∈ placed.1, item.bundleId? = none) (id : BundleId) :
    (items skipPrelude layoutItems).count (.bundle id) = (layoutItems.map Prod.snd).count id := by
  induction layoutItems with
  | nil => rfl
  | cons placed layoutItems ih =>
      have hrest := ih fun other ho => hl other (List.mem_cons_of_mem _ ho)
      have hprelude : (if skipPrelude then [] else placed.1).count (.bundle id) = 0 := by
        refine List.count_eq_zero.mpr fun hmem => ?_
        have hnone : (WorksheetItem.bundle id).bundleId? = none := by
          cases skipPrelude with
          | true => cases hmem
          | false => exact hl placed List.mem_cons_self _ hmem
        cases hnone
      have hsplit : items skipPrelude (placed :: layoutItems) =
          (if skipPrelude then [] else placed.1) ++
            .bundle placed.2 :: items skipPrelude layoutItems := by
        simp [items]
      rw [hsplit, List.count_append, hprelude, List.count_cons, hrest, List.map_cons, List.count_cons]
      simp

theorem count_unplaced (plan : Plan) {placed : List BundleId} {id : BundleId} (h : id ∉ placed) :
    (unplaced plan placed).count id = plan.newIds.count id :=
  List.count_filter (by simpa using h)

theorem count_added (plan : Plan) (skipPrelude : Bool)
    {layoutItems : List (List WorksheetItem × BundleId)}
    (hl : ∀ placed ∈ layoutItems, ∀ item ∈ placed.1, item.bundleId? = none) (id : BundleId) :
    (items skipPrelude layoutItems ++
        (unplaced plan (layoutItems.map Prod.snd)).map WorksheetItem.bundle).count (.bundle id) =
      (layoutItems.map Prod.snd).count id + (unplaced plan (layoutItems.map Prod.snd)).count id := by
  have hinj : Function.Injective WorksheetItem.bundle := fun _ _ h => WorksheetItem.bundle.inj h
  rw [List.count_append, count_items skipPrelude hl, List.count_map_of_injective _ _ hinj]

/-- The layout of a host is made of its slots, and their preludes are for no bundles. -/
theorem hostLayout_slots (substitutions : Substitutions) (created : List BundleId)
    (host : Option WorksheetId) :
    (hostLayout substitutions created host).Finds supply stock fun found =>
      found = slotsOf substitutions created (host.bind stock.contents.worksheet?) ∧
        ∀ placed ∈ found, ∀ item ∈ placed.1, item.bundleId? = none := by
  refine (hostLayout_finds substitutions created host).mono ?_
  rintro outcome after ⟨rfl, hlayout⟩
  refine ⟨rfl, ?_⟩
  rintro found rfl
  have hfound := hlayout found rfl
  cases host with
  | none =>
      obtain rfl : found = [] := hfound
      exact ⟨rfl, List.forall_mem_nil _⟩
  | some host =>
      obtain ⟨worksheet, hfetch, rfl⟩ := hfound
      have hlookup : after.contents.worksheet? host = some worksheet := by
        unfold Contents.fetchWorksheet at hfetch
        split at hfetch <;> cases hfetch
        assumption
      rw [Option.bind_some, hlookup]
      refine ⟨layout_eq_slots worksheet.items, fun placed hplaced => ?_⟩
      exact (mem_layout (List.forall_mem_nil _) placed hplaced).1

/-- **Laying out puts a bundle down once for each slot**, or else once for each entry of the plan. -/
theorem place_occurs (plan : Plan) (substitutions : Substitutions) (created : List BundleId)
    (target : WorksheetId) (anchor : Option BundleId) (skipPrelude : Bool) :
    (place plan substitutions created target anchor skipPrelude).Ensures supply stock
      fun result after => ∀ report, result = .ok report →
        report.placed = (slotsOf substitutions created
          (report.host.bind stock.contents.worksheet?)).map Prod.snd ∧
        ∃ added, Occurs plan target stock.contents after.contents added report := by
  unfold place
  refine Ensures.bind (hosts_finds anchor) ?_
  rintro outcome mid ⟨rfl, _⟩
  cases outcome with
  | error error => exact nofun
  | ok found =>
      refine Ensures.bind (hostLayout_slots substitutions created _) ?_
      rintro outcome mid ⟨rfl, hlayout⟩
      cases outcome with
      | error error => exact nofun
      | ok layoutItems =>
          obtain ⟨hslots, hpreludes⟩ := hlayout layoutItems rfl
          refine ((putItems_appends target _).and (putItems_target _)).bind ?_
          rintro outcome last ⟨happends, htarget⟩
          cases outcome with
          | error error => exact nofun
          | ok _ =>
              rintro report ⟨⟩
              have hcount := count_added plan skipPrelude hpreludes
              refine ⟨congrArg (List.map Prod.snd) hslots, _, ?_, htarget rfl, ?_, hcount, ?_, ?_⟩
              · rw [happends rfl]
              · intro id hid
                rw [← List.count_pos_iff, hcount]
                by_cases hplaced : id ∈ layoutItems.map Prod.snd
                · exact Nat.add_pos_left (List.count_pos_iff.mpr hplaced) _
                · rw [count_unplaced plan hplaced]
                  exact Nat.add_pos_right _ (List.count_pos_iff.mpr hid)
              · intro id hid
                simpa using (List.mem_filter.mp hid).2
              · exact fun id hplaced => count_unplaced plan hplaced

end Placement

/-! ### What equivalent bundles are needed for -/

namespace Replayer

variable {supply : IdSupply} {request : Request} {replayer next : Replayer} {stock after : Stock}
  {id : BundleId} {old : Bundle}

/-- The new bundles of the plan are stored under different ids, and the ids to come are new. -/
structure Distinct (supply : IdSupply) (replayer : Replayer) (stock : Stock) : Prop where
  fresh : stock.Fresh supply
  grounded : replayer.Grounded stock.contents
  nodup : replayer.plan.newIds.Nodup

theorem Distinct.resolve (h : replayer.Distinct supply stock) (hd : request.dryRun = false)
    (hm : request.memoize = false) (hr : Resolution supply request replayer id old stock next after) :
    next.Distinct supply after := by
  have hgrounded := h.grounded.resolve hr
  cases hr with
  | unaffected => exact ⟨h.fresh, hgrounded, h.nodup⟩
  | planned _ hdry =>
      rw [hd] at hdry
      cases hdry
  | reused _ _ hmemoize =>
      rw [hm] at hmemoize
      cases hmemoize
  | created _ _ _ _ hs =>
      refine ⟨h.fresh.createBundle hs, hgrounded, ?_⟩
      obtain ⟨rfl, _⟩ := hs.createBundle
      change (replayer.record id old _).plan.newIds.Nodup
      rw [newIds_record]
      refine List.nodup_append.mpr ⟨h.nodup, List.nodup_singleton _, ?_⟩
      rintro own hown other hother rfl
      obtain rfl := List.mem_singleton.mp hother
      exact h.fresh.new _ (Nat.le_refl _) (h.grounded.stored _ hown)

theorem Distinct.kept (hd : request.dryRun = false) (hm : request.memoize = false) (cache : Cache)
    (start : Replayer) (ids : List BundleId) :
    Kept supply request cache start ids (Distinct supply) where
  keep h _ _ _ := ⟨h.fresh, ⟨h.grounded.created, h.grounded.stored⟩, h.nodup⟩
  resolve h _ _ _ _ hr := h.resolve hd hm hr

theorem kept_worksheets (hs : request.shadow = false) (worksheets : List Worksheet) (cache : Cache)
    (start : Replayer) (ids : List BundleId) :
    Kept supply request cache start ids fun _ stock => stock.contents.worksheets = worksheets where
  keep h _ _ _ := h
  resolve := by
    rintro replayer next stock after current old h _ _ _ _ hr
    cases hr with
    | unaffected => exact h
    | planned => exact h
    | reused => exact h
    | created _ _ _ _ hserves =>
        have hdetached : placement request current = .detached := by simp [placement, hs]
        rw [hserves.createBundle_eq.2, hdetached]
        exact h

end Replayer

/-! ### The whole replay -/

namespace Request

variable {supply : IdSupply} {stock : Stock} {request : Request}

theorem traverse_worksheets (hs : request.shadow = false) :
    request.traverse.Ensures supply stock fun result after => ∀ named replayer,
      result = .ok (named, replayer) → after.contents.worksheets = stock.contents.worksheets := by
  have hnamed : (request.inIds stock.contents).shadow = false := hs
  exact traverse_ensures request rfl fun cache ids =>
    Replayer.kept_worksheets hnamed stock.contents.worksheets cache _ ids

theorem traverse_distinct (hd : request.dryRun = false) (hm : request.memoize = false)
    (hf : stock.Fresh supply) :
    request.traverse.Ensures supply stock fun result after => ∀ named replayer,
      result = .ok (named, replayer) → replayer.Distinct supply after := by
  have hdry : (request.inIds stock.contents).dryRun = false := hd
  have hmemoize : (request.inIds stock.contents).memoize = false := hm
  exact traverse_ensures request ⟨hf, .start _ _, List.nodup_nil⟩ fun cache ids =>
    Replayer.Distinct.kept hdry hmemoize cache _ ids

theorem finish_occurs (hd : request.dryRun = false) (hs : request.shadow = false)
    (replayer : Replayer) :
    (finish (request, replayer)).Ensures supply stock fun result after => ∀ replayed,
      result = .ok replayed → ∃ report, replayed = ⟨replayer.plan, some report⟩ ∧
        report.placed = (Placement.slotsOf replayer.substitutions replayer.created
          (report.host.bind stock.contents.worksheet?)).map Prod.snd ∧
        ∃ added, Placement.Occurs replayer.plan request.worksheet stock.contents after.contents added
          report := by
  unfold finish layOut
  rw [if_neg (by simp [hd, hs]), bind_assoc]
  refine (Placement.place_occurs _ _ _ _ _ _).bind ?_
  intro outcome after hplace
  cases outcome with
  | error error => exact nofun
  | ok report =>
      rintro _ ⟨⟩
      obtain ⟨hplaced, hadded⟩ := hplace report rfl
      exact ⟨report, rfl, hplaced, hadded⟩

/-- **How often new bundles are put on the target.**  When a replay succeeds that lays its bundles out,
each new bundle of its plan occurs among the items that it added to the target.  What it placed has a
slot in the layout of the host; what it appended has none, and was put down once for each entry of
the plan with it.  That is once altogether where no two entries have the same new bundle, as is the case
if no equivalent bundles are taken over. -/
theorem replay_appends (request : Request) (supply : IdSupply) (schedule : List (Nat × StoreError))
    (recorded : Recorded) (hd : request.dryRun = false) (hs : request.shadow = false)
    {replayed : Replayed}
    (hr : (request.replay.run (Recorded.handle supply schedule) recorded).1 = .ok replayed) :
    let initial := recorded.store.contents
    let final :=
      (request.replay.run (Recorded.handle supply schedule) recorded).2.store.contents
    ∃ named replayer report added,
      (request.traverse.run (Recorded.handle supply schedule) recorded).1 = .ok (named, replayer) ∧
      replayed = ⟨replayer.plan, some report⟩ ∧
      report.placed = (Placement.slotsOf replayer.substitutions replayer.created
        (report.host.bind initial.worksheet?)).map Prod.snd ∧
      Placement.Occurs replayed.plan request.worksheet initial final added report ∧
      (replayed.plan.newIds.Nodup →
        report.appended.Nodup ∧ ∀ id ∈ report.appended, added.count (.bundle id) = 1) ∧
      (request.memoize = false → recorded.stock.Fresh supply → replayed.plan.newIds.Nodup) := by
  intro initial final
  have hserves := Recorded.handle_serves supply schedule
  obtain ⟨⟨named, replayer⟩, htraverse, hfinish⟩ := run_eq_finish hr
  obtain ⟨_, hleads, _⟩ := Recorded.exists_leads supply schedule request.traverse recorded
  obtain ⟨_, _, _, hnamed⟩ := (request.traverse_orderly.of_leads hleads).1 named replayer htraverse
  have hdry : named.dryRun = false := by rw [hnamed]; exact hd
  have hshadow : named.shadow = false := by rw [hnamed]; exact hs
  have hfinished := hr
  rw [hfinish] at hfinished
  obtain ⟨report, hreplayed, hplaced, added, hoccurs⟩ :=
    (finish_occurs hdry hshadow replayer).run hserves replayed hfinished
  obtain rfl : replayed = _ := hreplayed
  have hleft := (traverse_worksheets hs).run hserves named replayer htraverse
  rw [Contents.worksheet?_congr hleft] at hplaced
  rw [← hfinish, hnamed] at hoccurs
  refine ⟨named, replayer, report, added, htraverse, rfl, hplaced, hoccurs.congr hleft,
    hoccurs.once, ?_⟩
  intro hm hfresh
  exact ((traverse_distinct hd hm hfresh).run hserves named replayer htraverse).nodup

/-- No host has the diamond, so what is made of it is all at the end, once each. -/
theorem diamond_appends : ∃ plan report added,
    let replayed := (diamond (some "eval")).replay.run (Recorded.handle Stock.strokes [])
      (.ofStore Store.diamond)
    replayed.1 = .ok ⟨plan, some report⟩ ∧ report.appended = ["|", "||", "|||"] ∧
      Placement.Occurs plan "w" Store.diamond.contents replayed.2.store.contents added report ∧
      ∀ id ∈ report.appended, added.count (.bundle id) = 1 := by
  have happended : (((diamond (some "eval")).replay.run (Recorded.handle Stock.strokes [])
      (.ofStore Store.diamond)).1.toOption.bind Replayed.placement).map PlacementReport.appended =
        some ["|", "||", "|||"] := by
    decide +kernel
  cases hr : ((diamond (some "eval")).replay.run (Recorded.handle Stock.strokes [])
      (.ofStore Store.diamond)).1 with
  | error error =>
      rw [hr] at happended
      cases happended
  | ok replayed =>
      rw [hr] at happended
      obtain ⟨_, replayer, report, added, _, rfl, _, hoccurs, honce, hnodup⟩ :=
        replay_appends (diamond (some "eval")) Stock.strokes [] (.ofStore Store.diamond) rfl rfl hr
      have hfresh : (Recorded.ofStore Store.diamond).stock.Fresh Stock.strokes :=
        Stock.fresh_strokes (by decide)
      exact ⟨replayer.plan, report, added, hr, Option.some.inj happended, hoccurs,
        (honce (hnodup rfl hfresh)).2⟩

end Request

/-- A store in which two bundles have the same command and the same parent. -/
def Store.forked : Store :=
  .ofBundles [.mounting .dataset "raw" none [], .mounting .dataset "fix" none [],
    .mounting .run "left" (some "prep") ["raw"], .mounting .run "right" (some "prep") ["raw"]]

namespace Request

/-- With equivalent bundles, what is created for the first one stands in for the second one, too, and is
put down for both. -/
theorem forked_appended_twice :
    let replayed := (chain none).replay.run (Recorded.handle Stock.strokes [])
      (.ofStore Store.forked)
    (chain none).dryRun = false ∧ (chain none).shadow = false ∧
      (Recorded.ofStore Store.forked).stock.Fresh Stock.strokes ∧
      replayed.1.toOption.bind Replayed.placement = some ⟨none, [], ["|", "|"], 0⟩ ∧
      replayed.2.store.contents.worksheets.map Worksheet.items = [[.bundle "|", .bundle "|"]] := by
  refine ⟨rfl, rfl, Stock.fresh_strokes (by decide), ?_, ?_⟩
  · decide +kernel
  · decide +kernel

end Request

end Provenance
