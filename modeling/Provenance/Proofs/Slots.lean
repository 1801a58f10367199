import Mathlib.Data.List.DropRight
import Provenance.Proofs.Additions
import Provenance.Proofs.Course

/-!
# Where new bundles are laid out

What the layout of a host amounts to, without a scan over its items: a slot is a position of the
host with a bundle that a created one stands in for, and its prelude is the longest block of prelude
items that ends directly above it.

* `Placement.layout_eq_slots`: the layout is made of the slots, in their order.
* `Contents.host?_eq_hostOf`: the host is the worksheet that `Contents.hostOf` looks up.
* `Placement.place_follows_host`: laying out puts the slots on the target, then what is left of the
  plan, reports just that, and changes nothing else.
-/

namespace Provenance

open Dialogue

/-! ### Slots -/

/-- The longest block of prelude items directly above a position. -/
def WorksheetItem.preludeAbove (items : List WorksheetItem) (position : Nat) : List WorksheetItem :=
  (items.take position).rtakeWhile isPrelude

namespace Placement

variable {substitutions : Substitutions} {created : List BundleId}

/-- The slot of an item at a position: what is to be put for it, if it is for a bundle that a created
one stands in for. -/
def slot? (substitutions : Substitutions) (created : List BundleId) (items : List WorksheetItem)
    (position : Nat) : WorksheetItem → Option (List WorksheetItem × BundleId)
  | .bundle old =>
    match substitutions.get? old with
    | some (some new) =>
      if new ∈ created then some (WorksheetItem.preludeAbove items position, new) else none
    | _ => none
  | _ => none

/-- The slots of a list of items, in order. -/
def slots (substitutions : Substitutions) (created : List BundleId) (items : List WorksheetItem) :
    List (List WorksheetItem × BundleId) :=
  items.zipIdx.filterMap fun (item, position) => slot? substitutions created items position item

theorem slot?_eq_map_fresh? (items : List WorksheetItem) (position : Nat) (item : WorksheetItem) :
    slot? substitutions created items position item =
      (fresh? substitutions created item).map (WorksheetItem.preludeAbove items position, ·) := by
  cases item with
  | bundle old =>
      cases hnew : substitutions.get? old with
      | none => simp [slot?, fresh?, WorksheetItem.bundleId?, hnew]
      | some new =>
          cases new with
          | none => simp [slot?, fresh?, WorksheetItem.bundleId?, hnew]
          | some new =>
              by_cases hc : new ∈ created
              · simp [slot?, fresh?, WorksheetItem.bundleId?, hnew, hc, Option.filter]
              · simp [slot?, fresh?, WorksheetItem.bundleId?, hnew, hc, Option.filter]
  | markup value => rfl
  | directive value => rfl
  | other value => rfl

theorem fresh?_of_isPrelude {item : WorksheetItem} (h : item.isPrelude = true) :
    fresh? substitutions created item = none := by
  cases item with
  | bundle old => cases h
  | markup value => rfl
  | directive value => rfl
  | other value => rfl

/-- What a scan carries along is the block of prelude items directly above it: whatever was scanned
before, it finds the slots of the whole list that lie ahead. -/
theorem layout_rtakeWhile (above items : List WorksheetItem) :
    layout substitutions created (above.rtakeWhile WorksheetItem.isPrelude) items =
      (items.zipIdx above.length).filterMap fun (item, position) =>
        slot? substitutions created (above ++ items) position item := by
  induction items generalizing above with
  | nil => rfl
  | cons item items ih =>
      have hprelude : WorksheetItem.preludeAbove (above ++ item :: items) above.length =
          above.rtakeWhile WorksheetItem.isPrelude := by
        rw [WorksheetItem.preludeAbove, List.take_left]
      have hrest := ih (above ++ [item])
      rw [List.append_assoc, List.length_append, List.singleton_append, List.length_singleton] at hrest
      rw [layout, List.zipIdx_cons, List.filterMap_cons]
      dsimp only
      rw [slot?_eq_map_fresh?, hprelude, ← hrest]
      by_cases hitem : item.isPrelude = true
      · rw [if_pos hitem, fresh?_of_isPrelude hitem, List.rtakeWhile_concat_pos _ _ _ hitem]
        rfl
      · rw [if_neg hitem, List.rtakeWhile_concat_neg _ _ _ hitem]
        cases fresh? substitutions created item <;> rfl

/-- **The layout of a host** is made of its slots. -/
theorem layout_eq_slots (items : List WorksheetItem) :
    layout substitutions created [] items = slots substitutions created items :=
  layout_rtakeWhile [] items

end Placement

/-! ### The host -/

namespace Contents

/-- The worksheet whose layout is followed: the target if it has an item for the anchor, and else the
first one that has. -/
def hostOf (contents : Contents) (target : WorksheetId) : Option BundleId → Option Worksheet
  | none => none
  | some anchor =>
    ((contents.worksheet? target).filter (·.containsBundle anchor)).or
      (contents.worksheets.find? (·.containsBundle anchor))

variable {contents : Contents} {target : WorksheetId} {worksheet : Worksheet}

theorem worksheet?_eq_some_iff (hw : (contents.worksheets.map Worksheet.id).Nodup) :
    contents.worksheet? target = some worksheet ↔
      worksheet ∈ contents.worksheets ∧ worksheet.id = target := by
  constructor
  · intro h
    exact ⟨List.mem_of_find?_eq_some h, by simpa using List.find?_some h⟩
  · rintro ⟨hmem, rfl⟩
    obtain ⟨found, hfound⟩ : ∃ found, contents.worksheet? worksheet.id = some found :=
      Option.isSome_iff_exists.mp (List.find?_isSome.mpr ⟨worksheet, hmem, by simp⟩)
    have hid : found.id = worksheet.id := by simpa using List.find?_some hfound
    rw [hfound, List.inj_on_of_nodup_map hw (List.mem_of_find?_eq_some hfound) hmem hid]

theorem mem_of_hostOf {anchor : Option BundleId}
    (h : contents.hostOf target anchor = some worksheet) : worksheet ∈ contents.worksheets := by
  cases anchor with
  | none => cases h
  | some anchor =>
      rcases Option.or_eq_some_iff.mp h with h | ⟨_, h⟩
      · exact List.mem_of_find?_eq_some (Option.filter_eq_some_iff.mp h).1
      · exact List.mem_of_find?_eq_some h

theorem find?_and_id (hw : (contents.worksheets.map Worksheet.id).Nodup) (target : WorksheetId)
    (p : Worksheet → Bool) :
    contents.worksheets.find? (fun worksheet => p worksheet = true ∧ worksheet.id = target) =
      (contents.worksheet? target).filter p := by
  cases hfound : contents.worksheets.find? fun worksheet =>
      p worksheet = true ∧ worksheet.id = target with
  | some found =>
      obtain ⟨hp, hid⟩ : p found = true ∧ found.id = target := by simpa using List.find?_some hfound
      have hlookup := (worksheet?_eq_some_iff hw).mpr ⟨List.mem_of_find?_eq_some hfound, hid⟩
      rw [hlookup, Option.filter_some_pos hp]
  | none =>
      refine (Option.filter_eq_none_iff.mpr fun found hlookup hp => ?_).symm
      obtain ⟨hmem, hid⟩ := (worksheet?_eq_some_iff hw).mp hlookup
      exact List.find?_eq_none.mp hfound found hmem (by simp [hp, hid])

theorem host?_eq_hostOf (hw : (contents.worksheets.map Worksheet.id).Nodup) (target : WorksheetId)
    (anchor : Option BundleId) :
    Placement.host? target (anchor.elim [] contents.fetchWorksheetsByBundle) =
      (contents.hostOf target anchor).map Worksheet.id := by
  cases anchor with
  | none => rfl
  | some anchor =>
      have hfind : (contents.fetchWorksheetsByBundle anchor).find? (fun host => host.id = target) =
          ((contents.worksheet? target).filter (·.containsBundle anchor)).map Worksheet.summary := by
        rw [fetchWorksheetsByBundle, List.find?_map, List.find?_filter, ← find?_and_id hw]
        congr 2
        funext worksheet
        exact decide_eq_decide.mpr (and_congr_right fun _ => decide_eq_true_iff)
      have hhead : (contents.fetchWorksheetsByBundle anchor).head? =
          (contents.worksheets.find? (·.containsBundle anchor)).map Worksheet.summary := by
        rw [fetchWorksheetsByBundle, List.head?_map, List.head?_filter]
      rw [Option.elim_some, Placement.host?, hfind, hhead, hostOf]
      cases (contents.worksheet? target).filter (·.containsBundle anchor) with
      | some host => rfl
      | none => cases contents.worksheets.find? (·.containsBundle anchor) <;> rfl

end Contents

/-! ### Laying out -/

namespace Placement

variable {supply : IdSupply} {stock : Stock} {target : WorksheetId} {plan : Plan}
  {substitutions : Substitutions} {created : List BundleId}

theorem putItems_appends (target : WorksheetId) (items : List WorksheetItem) :
    (putItems target items).Ensures supply stock fun result after => result = .ok () →
      after.contents = { stock.contents with
        worksheets :=
          Contents.modifyWorksheet target (.appendAll items) stock.contents.worksheets } := by
  induction items generalizing stock with
  | nil =>
      intro _
      rw [Contents.modifyWorksheet_id target Worksheet.appendAll_nil]
  | cons item items ih =>
      rw [putItems, ensures_bind, ensures_call]
      intro outcome after hs
      cases outcome with
      | error error =>
          intro hok
          cases hok
      | ok made =>
          refine ih.mono fun result last hlast hok => ?_
          have hid : ∀ worksheet : Worksheet, (worksheet.append item).id = worksheet.id := fun _ => rfl
          have happend : ∀ worksheet : Worksheet,
              (worksheet.append item).appendAll items = worksheet.appendAll (item :: items) := by
            simp [Worksheet.append, Worksheet.appendAll]
          rw [hlast hok, hs.createWorksheetItem_eq.2]
          simp only [Contents.addItem, Contents.modifyWorksheet_modifyWorksheet target hid, happend]

/-- The slots of the worksheet whose layout is followed. -/
def slotsOf (substitutions : Substitutions) (created : List BundleId) :
    Option Worksheet → List (List WorksheetItem × BundleId)
  | none => []
  | some host => slots substitutions created host.items

/-- What laying out a plan does: `initial` are the contents before it, `final` those after it.  The
slots of the host come first, then the new bundles of the plan that are in none of them. -/
structure Laid (plan : Plan) (substitutions : Substitutions) (created : List BundleId)
    (target : WorksheetId) (anchor : Option BundleId) (skipPrelude : Bool)
    (initial final : Contents) (report : PlacementReport) : Prop where
  host : report.host = (initial.hostOf target anchor).map Worksheet.id
  placed : report.placed =
    (slotsOf substitutions created (initial.hostOf target anchor)).map Prod.snd
  appended : report.appended = plan.newIds.filter (· ∉ report.placed)
  preludeItems : report.preludeItems = if skipPrelude then 0 else
    ((slotsOf substitutions created (initial.hostOf target anchor)).flatMap Prod.fst).length
  ownerId : final.ownerId = initial.ownerId
  bundles : final.bundles = initial.bundles
  worksheets : final.worksheets = initial.worksheets.map fun worksheet =>
    if worksheet.id = target then
      worksheet.appendAll
        ((slotsOf substitutions created (initial.hostOf target anchor)).flatMap (fun slot =>
            (if skipPrelude then [] else slot.1) ++ [.bundle slot.2]) ++
          report.appended.map .bundle)
    else worksheet

theorem place_laid (hw : (stock.contents.worksheets.map Worksheet.id).Nodup) (plan : Plan)
    (substitutions : Substitutions) (created : List BundleId) (target : WorksheetId)
    (anchor : Option BundleId) (skipPrelude : Bool) :
    (place plan substitutions created target anchor skipPrelude).Ensures supply stock
      fun result after => ∀ report, result = .ok report →
        Laid plan substitutions created target anchor skipPrelude stock.contents after.contents
          report := by
  unfold place
  refine Ensures.bind (hosts_finds anchor) ?_
  rintro outcome after ⟨rfl, hfound⟩
  cases outcome with
  | error error => exact nofun
  | ok found =>
      have hhost : host? target found = (after.contents.hostOf target anchor).map Worksheet.id := by
        rw [hfound found rfl, Contents.host?_eq_hostOf hw]
      dsimp only
      rw [hhost]
      refine Ensures.bind (hostLayout_finds substitutions created _) ?_
      rintro outcome mid ⟨rfl, hlayout⟩
      cases outcome with
      | error error => exact nofun
      | ok layoutItems =>
          obtain rfl : layoutItems =
              slotsOf substitutions created (mid.contents.hostOf target anchor) := by
            have hlaid := hlayout layoutItems rfl
            cases hof : mid.contents.hostOf target anchor with
            | none =>
                rw [hof] at hlaid
                exact hlaid
            | some host =>
                rw [hof] at hlaid
                obtain ⟨worksheet, hfetch, rfl⟩ := hlaid
                have hlookup := (Contents.worksheet?_eq_some_iff hw).mpr
                  ⟨Contents.mem_of_hostOf hof, rfl⟩
                rw [Contents.fetchWorksheet, hlookup] at hfetch
                cases hfetch
                exact layout_eq_slots host.items
          refine (putItems_appends target _).bind ?_
          intro outcome last hput
          cases outcome with
          | error error => exact nofun
          | ok _ =>
              rintro report ⟨⟩
              have hcontents := hput rfl
              refine ⟨rfl, rfl, rfl, ?_, ?_, ?_, ?_⟩
              · rfl
              · rw [hcontents]
              · rw [hcontents]
              · rw [hcontents, Contents.modifyWorksheet_eq_map hw]
                rfl

/-- **Placement follows the layout of the host exactly.**  When it succeeds, `Laid` says what was added to
the target, where this comes from, and that the report tells it; nothing else has changed. -/
theorem place_follows_host (plan : Plan) (substitutions : Substitutions) (created : List BundleId)
    (target : WorksheetId) (anchor : Option BundleId) (skipPrelude : Bool) (supply : IdSupply)
    (schedule : List (Nat × StoreError)) (recorded : Recorded)
    (hw : (recorded.store.contents.worksheets.map Worksheet.id).Nodup) {report : PlacementReport}
    (hr : ((place plan substitutions created target anchor skipPrelude).run
      (Recorded.handle supply schedule) recorded).1 = .ok report) :
    Laid plan substitutions created target anchor skipPrelude recorded.store.contents
      ((place plan substitutions created target anchor skipPrelude).run
        (Recorded.handle supply schedule) recorded).2.store.contents report :=
  (place_laid hw plan substitutions created target anchor skipPrelude).run
    (Recorded.handle_serves supply schedule) report hr

end Placement

/-- A store with notes on how data was prepared, twice, and what was prepared from other data. -/
def Store.notes : Store :=
  .ofContents ⟨none, [.mounting .dataset "raw" none [], .mounting .run "prep" (some "prep") ["raw"],
      .mounting .run "eval" (some "eval") ["prep"], .mounting .run "prep2" (some "prep") [],
      .mounting .run "eval2" (some "eval") ["prep2"]],
    [⟨"w", "work", none, [.markup "# Results"]⟩,
      ⟨"n", "notes", none, [.markup "# Data", .bundle "raw", .markup "# Prepared", .directive "table",
        .bundle "prep", .directive "image", .markup "", .bundle "prep"]⟩]⟩

namespace Placement

/-- Laid out like the notes, the new preparation comes twice, the first time under its heading; the
evaluation, of which the notes have nothing, is last. -/
theorem notes_laid :
    let plan : Plan := [
      ⟨.mounting .run "prep" (some "prep") ["raw"], .mounting .run "prep2" (some "prep") []⟩,
      ⟨.mounting .run "eval" (some "eval") ["prep"], .mounting .run "eval2" (some "eval") ["prep2"]⟩]
    let substitutions := (Register.empty.add "prep" (some "prep2")).add "eval" (some "eval2")
    let laid := (place plan substitutions ["prep2", "eval2"] "w" (some "prep") false).run
      (Recorded.handle Stock.strokes []) (.ofStore Store.notes)
    let report : PlacementReport := ⟨some "n", ["prep2", "prep2"], ["eval2"], 2⟩
    laid.1 = .ok report ∧
      Laid plan substitutions ["prep2", "eval2"] "w" (some "prep") false Store.notes.contents
        laid.2.store.contents report ∧
      laid.2.store.contents.worksheets.head?.map Worksheet.items = some [.markup "# Results",
        .markup "# Prepared", .directive "table", .bundle "prep2", .bundle "prep2",
        .bundle "eval2"] := by
  intro plan substitutions laid report
  have hr : laid.1 = .ok report := by decide +kernel
  refine ⟨hr, ?_, by decide +kernel⟩
  exact place_follows_host plan substitutions _ _ _ _ Stock.strokes [] (.ofStore Store.notes)
    (by decide) hr

end Placement

end Provenance
