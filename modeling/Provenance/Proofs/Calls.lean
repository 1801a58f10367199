import Provenance.Proofs.Graph
import Provenance.Proofs.Stock

/-!
# What the calls do to a stock

One statement for each call that a replay makes: with which answer it ends when it does not fail, and
what it leaves behind.  The calls that read leave the stock alone; `Serves.createBundle` adds one
bundle behind all others, `Serves.createWorksheetItem` adds none.

`Stock.Fresh` says that the supply still has new ids for a stock; creating a bundle keeps that.
-/

namespace Provenance

namespace Contents

/-- The bundle that a description is stored as under a new id. -/
def newBundle (contents : Contents) (description : Bundle) (id : BundleId) : Bundle :=
  Bundle.withId
    { description with
      ownerId := contents.ownerId
      state := .created
      frozen := none
      dataHash := none
      stateDetails := none } id

variable (contents : Contents)

@[simp] theorem newBundle_id (description : Bundle) (id : BundleId) :
    (contents.newBundle description id).id = some id := rfl

theorem newBundle_dependencies (description : Bundle) (id : BundleId) :
    (contents.newBundle description id).dependencies =
      description.dependencies.map fun dependency => { dependency with childId := id } := rfl

theorem newBundle_congr {contents other : Contents} (h : contents.ownerId = other.ownerId)
    (description : Bundle) (id : BundleId) :
    contents.newBundle description id = other.newBundle description id := by
  simp only [newBundle, h]

@[simp] theorem addBundle_bundles (bundle : Bundle) :
    (contents.addBundle bundle).bundles = contents.bundles ++ [bundle] := rfl

@[simp] theorem placeNew_bundles (new : BundleId) (target : WorksheetId)
    (placement : CreatePlacement) :
    (contents.placeNew new target placement).bundles = contents.bundles := by
  cases placement with
  | detached => rfl
  | shadow old =>
      simp only [placeNew]
      split <;> rfl

@[simp] theorem placeNew_ownerId (new : BundleId) (target : WorksheetId)
    (placement : CreatePlacement) :
    (contents.placeNew new target placement).ownerId = contents.ownerId := by
  cases placement with
  | detached => rfl
  | shadow old =>
      simp only [placeNew]
      split <;> rfl

/-- The last bundle that is found is a stored one with the command, with its state explained. -/
theorem exists_of_getLast?_searchBundles {contents : Contents} {command : Option String}
    {keys : List DependencyKey} {existing : Bundle}
    (h : (contents.searchBundles command keys).getLast? = some existing) :
    ∃ stored ∈ contents.bundles, stored.command = command ∧ existing = stored.explained := by
  obtain ⟨stored, hs, rfl⟩ := List.mem_map.mp (List.mem_of_getLast? h)
  obtain ⟨hmem, hfound⟩ := List.mem_filter.mp hs
  exact ⟨stored, hmem, (of_decide_eq_true hfound).1, rfl⟩

end Contents

namespace Stock.Serves

variable {supply : IdSupply} {before after : Stock}

theorem map_eq_ok {α : Type} {outcome : Except StoreError α} {answer : α} {store next : Store}
    (h : outcome.map (·, store) = .ok (answer, next)) : outcome = .ok answer ∧ next = store := by
  cases outcome with
  | error error => cases h
  | ok found =>
      obtain ⟨rfl, rfl⟩ := Prod.mk.inj (Except.ok.inj h)
      exact ⟨rfl, rfl⟩

theorem fetchBundles {specs : List String} {depth : Option Nat} {found : List Bundle}
    (h : before.Serves supply (.fetchBundles specs depth) (.ok found) after) :
    before.contents.fetchBundles specs depth = .ok found ∧ after = before := by
  obtain ⟨store, next, rfl, ha, rfl⟩ := h
  obtain ⟨hf, rfl⟩ := map_eq_ok ha
  exact ⟨hf, rfl⟩

theorem fetchBundle {id : BundleId} {found : Bundle}
    (h : before.Serves supply (.fetchBundle id) (.ok found) after) :
    before.contents.fetchBundle id = .ok found ∧ after = before := by
  obtain ⟨store, next, rfl, ha, rfl⟩ := h
  obtain ⟨hf, rfl⟩ := map_eq_ok ha
  exact ⟨hf, rfl⟩

theorem fetchWorksheet {id : WorksheetId} {found : Worksheet}
    (h : before.Serves supply (.fetchWorksheet id) (.ok found) after) :
    before.contents.fetchWorksheet id = .ok found ∧ after = before := by
  obtain ⟨store, next, rfl, ha, rfl⟩ := h
  obtain ⟨hf, rfl⟩ := map_eq_ok ha
  exact ⟨hf, rfl⟩

theorem fetchWorksheetsByBundle {id : BundleId} {found : List WorksheetSummary}
    (h : before.Serves supply (.fetchWorksheetsByBundle id) (.ok found) after) :
    before.contents.fetchWorksheetsByBundle id = found ∧ after = before := by
  obtain ⟨store, next, rfl, ha, rfl⟩ := h
  obtain ⟨rfl, rfl⟩ := Prod.mk.inj (Except.ok.inj ha)
  exact ⟨rfl, rfl⟩

theorem searchBundles {command : Option String} {keys : List DependencyKey} {found : List Bundle}
    (h : before.Serves supply (.searchBundles command keys) (.ok found) after) :
    before.contents.searchBundles command keys = found ∧ after = before := by
  obtain ⟨store, next, rfl, ha, rfl⟩ := h
  obtain ⟨rfl, rfl⟩ := Prod.mk.inj (Except.ok.inj ha)
  exact ⟨rfl, rfl⟩

/-- What a new bundle leaves behind: it is stored and placed, for which its target must exist. -/
theorem createBundle_eq {description made : Bundle} {target : WorksheetId}
    {placement : CreatePlacement}
    (h : before.Serves supply (.createBundle description target placement) (.ok made) after) :
    (before.contents.worksheet? target).isSome = true ∧
      after.contents = (before.contents.addBundle (before.contents.newBundle description
        (supply before.allocated))).placeNew (supply before.allocated) target placement := by
  obtain ⟨store, next, rfl, ha, rfl⟩ := h
  change store.createBundle supply description target placement = .ok (made, next) at ha
  unfold Store.createBundle at ha
  split at ha
  · cases ha
  · split at ha
    · cases ha
    · rename_i hw
      obtain ⟨rfl, rfl⟩ := Prod.mk.inj (Except.ok.inj ha)
      exact ⟨by simp [Store.stock, hw], rfl⟩

/-- What a new item leaves behind: it is the last one of its target, which must exist. -/
theorem createWorksheetItem_eq {item made : WorksheetItem} {target : WorksheetId}
    (h : before.Serves supply (.createWorksheetItem item target) (.ok made) after) :
    (before.contents.worksheet? target).isSome = true ∧
      after.contents = before.contents.addItem item target := by
  obtain ⟨store, next, rfl, ha, rfl⟩ := h
  change store.createWorksheetItem item target = .ok (made, next) at ha
  unfold Store.createWorksheetItem at ha
  split at ha
  · cases ha
  · split at ha
    · cases ha
    · rename_i hw
      obtain ⟨rfl, rfl⟩ := Prod.mk.inj (Except.ok.inj ha)
      exact ⟨by simp [Store.stock, hw], rfl⟩

/-- A new bundle is stored behind all others, under the next id of the supply. -/
theorem createBundle {description made : Bundle} {target : WorksheetId}
    {placement : CreatePlacement}
    (h : before.Serves supply (.createBundle description target placement) (.ok made) after) :
    made = (before.contents.newBundle description (supply before.allocated)).explained ∧
      after.contents.bundles =
        before.contents.bundles ++
          [before.contents.newBundle description (supply before.allocated)] ∧
      after.allocated = before.allocated + 1 := by
  obtain ⟨store, next, rfl, ha, rfl⟩ := h
  change store.createBundle supply description target placement = .ok (made, next) at ha
  unfold Store.createBundle at ha
  split at ha
  · cases ha
  · split at ha
    · cases ha
    · obtain ⟨rfl, rfl⟩ := Prod.mk.inj (Except.ok.inj ha)
      refine ⟨rfl, ?_, rfl⟩
      simp only [Store.stock, Contents.placeNew_bundles, Contents.addBundle_bundles]
      rfl

theorem createWorksheetItem {item made : WorksheetItem} {target : WorksheetId}
    (h : before.Serves supply (.createWorksheetItem item target) (.ok made) after) :
    after.contents.bundles = before.contents.bundles ∧ after.allocated = before.allocated := by
  obtain ⟨store, next, rfl, ha, rfl⟩ := h
  change store.createWorksheetItem item target = .ok (made, next) at ha
  unfold Store.createWorksheetItem at ha
  split at ha
  · cases ha
  · split at ha
    · cases ha
    · obtain ⟨rfl, rfl⟩ := Prod.mk.inj (Except.ok.inj ha)
      exact ⟨rfl, rfl⟩

end Stock.Serves

/-! ### Fresh ids -/

/-- The ids that are given out after some others are different, and none of them is known. -/
structure IdSupply.Avoids (supply : IdSupply) (allocated : Nat) (known : List BundleId) : Prop where
  new : ∀ n, allocated ≤ n → supply n ∉ known
  distinct : ∀ m n, allocated ≤ m → allocated ≤ n → supply m = supply n → m = n

theorem IdSupply.Avoids.next {supply : IdSupply} {allocated : Nat} {known later : List BundleId}
    (h : supply.Avoids allocated known)
    (hl : ∀ id ∈ later, id ∈ known ∨ id = supply allocated) :
    supply.Avoids (allocated + 1) later where
  new n hn hid := by
    rcases hl _ hid with hid | hid
    · exact h.new n (by omega) hid
    · have := h.distinct n allocated (by omega) (Nat.le_refl _) hid
      omega
  distinct m n hm hn := h.distinct m n (by omega) (by omega)

namespace Stock

/-- The ids that are still to be given out are new, and no two of them are the same. -/
structure Fresh (supply : IdSupply) (stock : Stock) : Prop where
  new : ∀ n, stock.allocated ≤ n → supply n ∉ stock.contents.ids
  distinct : ∀ m n, stock.allocated ≤ m → stock.allocated ≤ n → supply m = supply n → m = n

variable {supply : IdSupply} {before after : Stock} {description made : Bundle}
  {target : WorksheetId} {placement : CreatePlacement}

theorem Serves.createBundle_ids
    (hs : before.Serves supply (.createBundle description target placement) (.ok made) after) :
    after.contents.ids = before.contents.ids ++ [supply before.allocated] := by
  obtain ⟨_, hb, _⟩ := hs.createBundle
  exact Contents.ids_append hb rfl

theorem Fresh.of_avoids {known : List BundleId} (h : supply.Avoids before.allocated known)
    (hk : ∀ id ∈ before.contents.ids, id ∈ known) : before.Fresh supply :=
  ⟨fun n hn hid => h.new n hn (hk _ hid), h.distinct⟩

theorem Fresh.createBundle (h : before.Fresh supply)
    (hs : before.Serves supply (.createBundle description target placement) (.ok made) after) :
    after.Fresh supply := by
  obtain ⟨_, _, ha⟩ := hs.createBundle
  refine ⟨?_, ?_⟩
  · intro n hn hmem
    rw [ha] at hn
    rw [hs.createBundle_ids, List.mem_append, List.mem_singleton] at hmem
    rcases hmem with hmem | he
    · exact h.new n (by omega) hmem
    · have := h.distinct n before.allocated (by omega) (Nat.le_refl _) he
      omega
  · intro m n hm hn he
    exact h.distinct m n (by omega) (by omega) he

/-- Ids that are made of strokes. -/
def strokes : IdSupply :=
  fun count => String.ofList (List.replicate (count + 1) '|')

theorem toList_strokes (count : Nat) : (strokes count).toList = List.replicate (count + 1) '|' :=
  String.toList_ofList

theorem strokes_ne_empty (count : Nat) : strokes count ≠ "" := by
  intro hempty
  have hlist := toList_strokes count
  rw [hempty] at hlist
  cases hlist

theorem avoids_strokes (allocated : Nat) {known : List BundleId}
    (h : ∀ id ∈ known, '|' ∉ id.toList) : IdSupply.Avoids strokes allocated known where
  new n _ hknown := by
    refine h _ hknown ?_
    rw [toList_strokes]
    exact List.mem_replicate.mpr ⟨n.succ_ne_zero, rfl⟩
  distinct m n _ _ he := by
    have hlength := congrArg List.length (congrArg String.toList he)
    rw [toList_strokes, toList_strokes, List.length_replicate, List.length_replicate] at hlength
    exact Nat.succ.inj hlength

/-- Ids made of strokes are fresh where no id has one. -/
theorem fresh_strokes {stock : Stock} (h : ∀ id ∈ stock.contents.ids, '|' ∉ id.toList) :
    stock.Fresh strokes :=
  .of_avoids (avoids_strokes stock.allocated h) fun _ hid => hid

end Stock

end Provenance
