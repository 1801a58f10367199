import Provenance.Proofs.Conduct

/-!
# A replay only ever adds

`Contents.Extends` says that contents have grown out of earlier ones: bundles and items were added,
and nothing else has changed.  Every call extends the contents, and so does every run.

* `Request.replay_extends`: this holds of a replay however it ends.  Without shadowing the new items
  are at the end of the target worksheet, and a dry run adds nothing.
-/

namespace Provenance

/-! ### Contents that have grown -/

/-- A worksheet has grown out of an earlier one: only items were put in. -/
structure Worksheet.Extends (worksheet earlier : Worksheet) : Prop where
  summary : worksheet.summary = earlier.summary
  items : earlier.items.Sublist worksheet.items

namespace Worksheet.Extends

variable {worksheet middle earlier : Worksheet}

theorem refl (worksheet : Worksheet) : worksheet.Extends worksheet :=
  ⟨rfl, .refl _⟩

theorem trans (h : worksheet.Extends middle) (h' : middle.Extends earlier) :
    worksheet.Extends earlier :=
  ⟨h.summary.trans h'.summary, h'.items.trans h.items⟩

theorem append (worksheet : Worksheet) (item : WorksheetItem) :
    (worksheet.append item).Extends worksheet :=
  ⟨rfl, List.sublist_append_left _ _⟩

theorem shadow (worksheet : Worksheet) (old new : BundleId) :
    (worksheet.shadow old new).Extends worksheet := by
  refine ⟨rfl, ?_⟩
  simp only [Worksheet.shadow]
  induction worksheet.items with
  | nil => exact .slnil
  | cons item items ih =>
      rw [List.flatMap_cons]
      split
      · exact ((ih.cons (.bundle new)).cons_cons item)
      · exact ih.cons_cons item

end Worksheet.Extends

namespace Contents

/-- Contents have grown out of earlier ones: bundles were put behind the others, and items on the
worksheets. -/
structure Extends (contents earlier : Contents) : Prop where
  ownerId : contents.ownerId = earlier.ownerId
  bundles : earlier.bundles <+: contents.bundles
  worksheets : List.Forall₂ Worksheet.Extends contents.worksheets earlier.worksheets

theorem forall₂_trans {later middle earlier : List Worksheet}
    (h : List.Forall₂ Worksheet.Extends later middle)
    (h' : List.Forall₂ Worksheet.Extends middle earlier) :
    List.Forall₂ Worksheet.Extends later earlier := by
  induction h generalizing earlier with
  | nil =>
      cases h'
      exact .nil
  | cons hw _ ih =>
      cases h' with
      | cons hw' h' => exact .cons (hw.trans hw') (ih h')

theorem forall₂_modifyWorksheet {id : WorksheetId} {change : Worksheet → Worksheet}
    (h : ∀ worksheet, (change worksheet).Extends worksheet) (worksheets : List Worksheet) :
    List.Forall₂ Worksheet.Extends (modifyWorksheet id change worksheets) worksheets := by
  induction worksheets with
  | nil => exact .nil
  | cons worksheet worksheets ih =>
      rw [modifyWorksheet]
      split
      · exact .cons (h worksheet) (List.forall₂_same.mpr fun other _ => .refl other)
      · exact .cons (.refl worksheet) ih

namespace Extends

variable {contents middle earlier : Contents}

theorem refl (contents : Contents) : contents.Extends contents :=
  ⟨rfl, List.prefix_rfl, List.forall₂_same.mpr fun worksheet _ => .refl worksheet⟩

theorem trans (h : contents.Extends middle) (h' : middle.Extends earlier) :
    contents.Extends earlier := by
  refine ⟨h.ownerId.trans h'.ownerId, h'.bundles.trans h.bundles, ?_⟩
  exact forall₂_trans h.worksheets h'.worksheets

theorem addBundle (contents : Contents) (bundle : Bundle) :
    (contents.addBundle bundle).Extends contents :=
  ⟨rfl, List.prefix_append _ _, List.forall₂_same.mpr fun worksheet _ => .refl worksheet⟩

theorem addItem (contents : Contents) (item : WorksheetItem) (id : WorksheetId) :
    (contents.addItem item id).Extends contents :=
  ⟨rfl, List.prefix_rfl, forall₂_modifyWorksheet (fun worksheet => .append worksheet item) _⟩

theorem placeNew (contents : Contents) (new : BundleId) (target : WorksheetId)
    (placement : CreatePlacement) : (contents.placeNew new target placement).Extends contents := by
  cases placement with
  | detached => exact .refl contents
  | shadow old =>
      simp only [Contents.placeNew]
      split
      · refine ⟨rfl, List.prefix_rfl, List.forall₂_map_left_iff.mpr ?_⟩
        exact List.forall₂_same.mpr fun worksheet _ => .shadow worksheet old new
      · exact .addItem contents _ target

end Extends

end Contents

namespace Stock.Serves

variable {supply : IdSupply} {before after : Stock} {call : Call} {outcome : call.Outcome}

/-- **Every call only adds**, whether or not it fails. -/
theorem extends_contents (h : before.Serves supply call outcome after) :
    after.contents.Extends before.contents := by
  cases outcome with
  | error error =>
      have hsame : after = before := h
      rw [hsame]
      exact .refl _
  | ok answer =>
      cases call with
      | fetchBundles => rw [h.fetchBundles.2]; exact .refl _
      | fetchBundle => rw [h.fetchBundle.2]; exact .refl _
      | fetchWorksheetsByBundle => rw [h.fetchWorksheetsByBundle.2]; exact .refl _
      | fetchWorksheet => rw [h.fetchWorksheet.2]; exact .refl _
      | createBundle =>
          rw [h.createBundle_eq.2]
          exact (Contents.Extends.placeNew _ _ _ _).trans (.addBundle _ _)
      | createWorksheetItem => rw [h.createWorksheetItem_eq.2]; exact .addItem _ _ _
      | searchBundles => rw [h.searchBundles.2]; exact .refl _

end Stock.Serves

/-- **What a dialogue leads to has grown** out of what it began with. -/
theorem Dialogue.Leads.extends_contents {α : Type} {supply : IdSupply} {before after : Stock}
    {events : List Event} {result : α} {dialogue : Dialogue α}
    (h : dialogue.Leads supply before events result after) :
    after.contents.Extends before.contents := by
  induction h with
  | done => exact .refl _
  | ask hs _ ih => exact ih.trans hs.extends_contents

/-! ### Where items are put -/

namespace Worksheet

/-- Puts items at the end. -/
def appendAll (items : List WorksheetItem) (worksheet : Worksheet) : Worksheet :=
  { worksheet with items := worksheet.items ++ items }

theorem appendAll_nil (worksheet : Worksheet) : worksheet.appendAll [] = worksheet := by
  simp [appendAll]

theorem append_appendAll (worksheet : Worksheet) (items : List WorksheetItem) (item : WorksheetItem) :
    (worksheet.appendAll items).append item = worksheet.appendAll (items ++ [item]) := by
  simp [appendAll, append]

end Worksheet

namespace Contents

theorem modifyWorksheet_id (id : WorksheetId) {change : Worksheet → Worksheet}
    (h : ∀ worksheet, change worksheet = worksheet) (worksheets : List Worksheet) :
    modifyWorksheet id change worksheets = worksheets := by
  induction worksheets with
  | nil => rfl
  | cons worksheet worksheets ih => simp [modifyWorksheet, h, ih]

theorem modifyWorksheet_modifyWorksheet (id : WorksheetId) {change next : Worksheet → Worksheet}
    (h : ∀ worksheet, (change worksheet).id = worksheet.id) (worksheets : List Worksheet) :
    modifyWorksheet id next (modifyWorksheet id change worksheets) =
      modifyWorksheet id (fun worksheet => next (change worksheet)) worksheets := by
  induction worksheets with
  | nil => rfl
  | cons worksheet worksheets ih =>
      by_cases hid : worksheet.id = id
      · simp [modifyWorksheet, hid, h]
      · simp [modifyWorksheet, hid, ih]

theorem modifyWorksheet_eq_map {worksheets : List Worksheet}
    (hw : (worksheets.map Worksheet.id).Nodup) (id : WorksheetId) (change : Worksheet → Worksheet) :
    modifyWorksheet id change worksheets =
      worksheets.map fun worksheet => if worksheet.id = id then change worksheet else worksheet := by
  induction worksheets with
  | nil => rfl
  | cons worksheet worksheets ih =>
      obtain ⟨hfirst, hrest⟩ := List.nodup_cons.mp hw
      rw [modifyWorksheet, List.map_cons]
      by_cases hid : worksheet.id = id
      · rw [if_pos hid, if_pos hid]
        have hothers : ∀ other ∈ worksheets,
            (if other.id = id then change other else other) = other := by
          intro other ho
          refine if_neg fun hother => hfirst ?_
          rw [hid, ← hother]
          exact List.mem_map_of_mem ho
        rw [List.map_congr_left hothers, List.map_id']
      · rw [if_neg hid, if_neg hid, ih hrest]

/-- The contents differ from earlier ones in the worksheets by items at the end of one only. -/
def Appends (contents earlier : Contents) (target : WorksheetId) : Prop :=
  ∃ items, contents.worksheets =
    modifyWorksheet target (Worksheet.appendAll items) earlier.worksheets

namespace Appends

variable {contents earlier : Contents} {target : WorksheetId}

theorem refl (contents : Contents) (target : WorksheetId) : contents.Appends contents target :=
  ⟨[], (modifyWorksheet_id target Worksheet.appendAll_nil _).symm⟩

theorem addItem (h : contents.Appends earlier target) (item : WorksheetItem) :
    (contents.addItem item target).Appends earlier target := by
  obtain ⟨items, hitems⟩ := h
  refine ⟨items ++ [item], ?_⟩
  have hid : ∀ worksheet : Worksheet, (worksheet.appendAll items).id = worksheet.id := fun _ => rfl
  simp only [Contents.addItem, hitems, modifyWorksheet_modifyWorksheet target hid,
    Worksheet.append_appendAll]

end Appends

end Contents

namespace Stock.Serves

variable {supply : IdSupply} {before after : Stock} {call : Call} {outcome : call.Outcome}
  {request : Request}

/-- Without shadowing, every call that a request admits puts items at the end of its target only. -/
theorem appends (h : before.Serves supply call outcome after) (ha : request.Admits call)
    (hs : request.shadow = false) {earlier : Contents}
    (hb : before.contents.Appends earlier request.worksheet) :
    after.contents.Appends earlier request.worksheet := by
  cases outcome with
  | error error =>
      have hsame : after = before := h
      rwa [hsame]
  | ok answer =>
      cases call with
      | fetchBundles => rwa [h.fetchBundles.2]
      | fetchBundle => rwa [h.fetchBundle.2]
      | fetchWorksheetsByBundle => rwa [h.fetchWorksheetsByBundle.2]
      | fetchWorksheet => rwa [h.fetchWorksheet.2]
      | createBundle description target placement =>
          obtain ⟨_, rfl, old, hplace⟩ := ha
          have hdetached : placement = .detached := by simpa [Replayer.placement, hs] using hplace
          rw [h.createBundle_eq.2, hdetached]
          exact hb
      | createWorksheetItem item target =>
          obtain ⟨_, _, rfl⟩ := ha
          rw [h.createWorksheetItem_eq.2]
          exact hb.addItem item
      | searchBundles => rwa [h.searchBundles.2]

end Stock.Serves

/-! ### Dry runs -/

/-- In a dry run an admitted call leaves a store as it was, but that the call is counted and a
failure queued for it is used up. -/
theorem Request.Admits.handle_eq {request : Request} {call : Call} (ha : request.Admits call)
    (hd : request.dryRun = true) (supply : IdSupply) (store : Store) :
    ∃ counts failures, (Store.handle supply call store).2 = { store with counts, failures } := by
  have hanswer : ∀ (store next : Store) (answer : call.Answer),
      store.answer supply call = .ok (answer, next) → next = store := by
    intro store next answer h
    cases call with
    | fetchBundles => exact (Stock.Serves.map_eq_ok h).2
    | fetchBundle => exact (Stock.Serves.map_eq_ok h).2
    | fetchWorksheetsByBundle => exact absurd ha.1 (by simp [hd])
    | fetchWorksheet => exact absurd ha.1 (by simp [hd])
    | createBundle => exact absurd ha.1 (by simp [hd])
    | createWorksheetItem => exact absurd ha.1 (by simp [hd])
    | searchBundles => exact absurd ha.1 (by simp [hd])
  unfold Store.handle
  cases hf : store.failures with
  | cons error failures => exact ⟨_, _, rfl⟩
  | nil =>
      simp only
      split
      · rename_i answer next h
        rw [hanswer _ next answer h]
        exact ⟨_, _, rfl⟩
      · exact ⟨_, _, rfl⟩

theorem Recorded.disturb_eq (schedule : List (Nat × StoreError)) (recorded : Recorded) :
    ∃ failures, recorded.disturb schedule = { recorded.store with failures } :=
  ⟨_, disturb_eq_append schedule recorded⟩

/-! ### The whole replay -/

namespace Request

/-- **A replay only ever adds**, however it ends and whichever of its calls fail.  The bundles that
were stored stay as they are, in front of the new ones, and the worksheets keep all but their lists
of items, which only get longer.  Without shadowing these get longer at the end of the target only.
A dry run leaves the store as it was, but for the counts of the calls and the failures that are
queued. -/
theorem replay_extends (request : Request) (supply : IdSupply)
    (schedule : List (Nat × StoreError)) (recorded : Recorded) :
    let initial := recorded.store
    let final := (request.replay.run (Recorded.handle supply schedule) recorded).2.store
    final.contents.Extends initial.contents ∧
      (request.shadow = false → final.contents.Appends initial.contents request.worksheet) ∧
      (request.dryRun = true → ∃ counts failures, final = { initial with counts, failures }) := by
  intro initial final
  have horderly := request.replay_orderly
  refine ⟨?_, ?_, ?_⟩
  · have hkeeps : ∀ call (state : Recorded), request.Admits call →
        state.store.contents.Extends initial.contents →
        (Recorded.handle supply schedule call state).2.store.contents.Extends initial.contents :=
      fun call state _ hstate =>
        (Recorded.handle_serves supply schedule call state).extends_contents.trans hstate
    exact horderly.run_keeps hkeeps (.refl initial.contents)
  · intro hs
    have hkeeps : ∀ call (state : Recorded), request.Admits call →
        state.store.contents.Appends initial.contents request.worksheet →
        (Recorded.handle supply schedule call state).2.store.contents.Appends initial.contents
          request.worksheet :=
      fun call state ha hstate =>
        (Recorded.handle_serves supply schedule call state).appends ha hs hstate
    exact horderly.run_keeps hkeeps (.refl initial.contents _)
  · intro hd
    have hkeeps : ∀ call (state : Recorded), request.Admits call →
        (∃ counts failures, state.store = { initial with counts, failures }) →
        ∃ counts failures, (Recorded.handle supply schedule call state).2.store =
          { initial with counts, failures } := by
      rintro call state ha ⟨counts, failures, hstate⟩
      obtain ⟨queued, hdisturb⟩ := Recorded.disturb_eq schedule state
      obtain ⟨counts', failures', hhandle⟩ := ha.handle_eq hd supply (state.disturb schedule)
      have hafter : (Recorded.handle supply schedule call state).2.store =
          (Store.handle supply call (state.disturb schedule)).2 := rfl
      refine ⟨counts', failures', ?_⟩
      rw [hafter, hhandle, hdisturb, hstate]
    exact horderly.run_keeps hkeeps ⟨_, _, rfl⟩

end Request

end Provenance
