import Provenance.Proofs.Additions

/-!
# Sound stores

A store is `Sound` if its bundles have distinct ids, their dependencies name them as children, its
worksheets have items for stored bundles only, and its record of created bundles lists such bundles in
the order in which they are stored.

An `Action` is whatever can be done to a store: a call, which may fail, or a way to prepare and watch
it.  `Store.after` is the store after an action, `Store.Permits` what is asked of an action: new ids
are new, and a worksheet that is put in only has items for stored bundles.

* `Sound.after` says what one action keeps, and `Sound.afterAll` what any number of them keep.
* `lasts_afterAll`: what is stored for a bundle never changes, but that it may be frozen, once.
* `runs_keep_sound` puts both together, for every time in a run.
-/

namespace Provenance

/-- The items of a worksheet that are for bundles are for some of these. -/
def Worksheet.NamesOnly (worksheet : Worksheet) (ids : List BundleId) : Prop :=
  ∀ item ∈ worksheet.items, ∀ id ∈ item.bundleId?, id ∈ ids

namespace Worksheet.NamesOnly

variable {worksheet : Worksheet} {ids more : List BundleId}

theorem mono (h : worksheet.NamesOnly ids) (hm : ∀ id ∈ ids, id ∈ more) : worksheet.NamesOnly more :=
  fun item hi id hid => hm id (h item hi id hid)

theorem append (h : worksheet.NamesOnly ids) {item : WorksheetItem}
    (hi : ∀ id ∈ item.bundleId?, id ∈ ids) : (worksheet.append item).NamesOnly ids := by
  intro other ho
  rcases List.mem_append.mp ho with ho | ho
  · exact h other ho
  · obtain rfl := List.mem_singleton.mp ho
    exact hi

theorem shadow (h : worksheet.NamesOnly ids) (old : BundleId) {new : BundleId} (hn : new ∈ ids) :
    (worksheet.shadow old new).NamesOnly ids := by
  intro other ho
  obtain ⟨item, hi, ho⟩ := List.mem_flatMap.mp ho
  split at ho
  · rcases List.mem_cons.mp ho with rfl | ho
    · exact h _ hi
    · obtain rfl := List.mem_singleton.mp ho
      rintro id hid
      cases hid
      exact hn
  · obtain rfl := List.mem_singleton.mp ho
    exact h _ hi

end Worksheet.NamesOnly

/-! ### Sound contents -/

namespace Contents

/-- Ids are distinct, dependencies name their bundle as the child, and items are for stored bundles. -/
structure Sound (contents : Contents) : Prop where
  identified : contents.Identified
  children : ∀ bundle ∈ contents.bundles, ∀ dependency ∈ bundle.dependencies,
    bundle.id = some dependency.childId
  items : ∀ worksheet ∈ contents.worksheets, worksheet.NamesOnly contents.ids

variable {contents : Contents} {id : BundleId} {position : Nat} {bundle : Bundle}
  {bundles : List Bundle}

theorem exists_of_mem_modifyWorksheet {target : WorksheetId} {change : Worksheet → Worksheet}
    {worksheets : List Worksheet} {worksheet : Worksheet}
    (h : worksheet ∈ modifyWorksheet target change worksheets) :
    ∃ other ∈ worksheets, worksheet = other ∨ worksheet = change other := by
  induction worksheets with
  | nil => cases h
  | cons first worksheets ih =>
      rw [modifyWorksheet] at h
      split at h
      · rcases List.mem_cons.mp h with rfl | h
        · exact ⟨first, List.mem_cons_self, .inr rfl⟩
        · exact ⟨worksheet, List.mem_cons_of_mem _ h, .inl rfl⟩
      · rcases List.mem_cons.mp h with rfl | h
        · exact ⟨worksheet, List.mem_cons_self, .inl rfl⟩
        · obtain ⟨other, ho, he⟩ := ih h
          exact ⟨other, List.mem_cons_of_mem _ ho, he⟩

theorem map_modifyBundle {α : Type} {view : Bundle → α} {change : Bundle → Bundle}
    (h : ∀ bundle, view (change bundle) = view bundle) (id : BundleId) (bundles : List Bundle) :
    (modifyBundle id change bundles).map view = bundles.map view := by
  induction bundles with
  | nil => rfl
  | cons first bundles ih =>
      rw [modifyBundle]
      split
      · rw [List.map_cons, List.map_cons, h]
      · rw [List.map_cons, List.map_cons, ih]

theorem ids_modifyBundle (contents : Contents) {change : Bundle → Bundle}
    (h : ∀ bundle, (change bundle).id = bundle.id) (id : BundleId) :
    { contents with bundles := modifyBundle id change contents.bundles }.ids = contents.ids := by
  have hmap := congrArg (List.filterMap fun own : Option BundleId => own)
    (map_modifyBundle h id contents.bundles)
  rwa [List.filterMap_map, List.filterMap_map] at hmap

/-- At every position there is the bundle that was there, or it is the one that was changed. -/
theorem getElem?_modifyBundle (h : bundles[position]? = some bundle) (id : BundleId)
    (change : Bundle → Bundle) :
    (modifyBundle id change bundles)[position]? = some bundle ∨
      (bundles.find? fun bundle => bundle.id = some id) = some bundle ∧
        (modifyBundle id change bundles)[position]? = some (change bundle) := by
  induction bundles generalizing position with
  | nil => cases h
  | cons first bundles ih =>
      rw [modifyBundle, List.find?_cons]
      by_cases hid : first.id = some id
      · rw [if_pos hid]
        cases position with
        | zero =>
            cases h
            exact .inr ⟨by simp [hid], rfl⟩
        | succ position => exact .inl h
      · rw [if_neg hid]
        cases position with
        | zero => exact .inl h
        | succ position => simpa [hid] using ih h

namespace Sound

theorem of_worksheets (h : contents.Sound) {after : Contents}
    (hb : after.bundles = contents.bundles)
    (hw : ∀ worksheet ∈ after.worksheets, worksheet.NamesOnly contents.ids) : after.Sound := by
  obtain ⟨ownerId, bundles, worksheets⟩ := after
  obtain rfl : bundles = contents.bundles := hb
  exact ⟨⟨h.identified.isSome, h.identified.nodup⟩, h.children, hw⟩

theorem addBundle (h : contents.Sound) (hn : id ∉ contents.ids) (bundle : Bundle) :
    (contents.addBundle (bundle.withId id)).Sound := by
  have hids : (contents.addBundle (bundle.withId id)).ids = contents.ids ++ [id] :=
    ids_append rfl rfl
  refine ⟨h.identified.append rfl rfl hn, ?_, ?_⟩
  · rw [addBundle_bundles, List.forall_mem_append, List.forall_mem_singleton]
    refine ⟨h.children, ?_⟩
    intro dependency hd
    obtain ⟨_, _, rfl⟩ := List.mem_map.mp hd
    rfl
  · rw [hids]
    exact fun worksheet hw =>
      (h.items worksheet hw).mono fun _ hid => List.mem_append_left _ hid

theorem addItem (h : contents.Sound) {item : WorksheetItem}
    (hi : ∀ id ∈ item.bundleId?, id ∈ contents.ids) (target : WorksheetId) :
    (contents.addItem item target).Sound := by
  refine h.of_worksheets rfl ?_
  intro worksheet hw
  obtain ⟨other, ho, rfl | rfl⟩ := exists_of_mem_modifyWorksheet hw
  · exact h.items worksheet ho
  · exact (h.items other ho).append hi

theorem placeNew (h : contents.Sound) (hn : id ∈ contents.ids) (target : WorksheetId)
    (placement : CreatePlacement) : (contents.placeNew id target placement).Sound := by
  cases placement with
  | detached => exact h
  | shadow old =>
      simp only [Contents.placeNew]
      split
      · refine h.of_worksheets rfl ?_
        intro worksheet hw
        obtain ⟨other, ho, rfl⟩ := List.mem_map.mp hw
        exact (h.items other ho).shadow old hn
      · refine h.addItem ?_ target
        rintro _ ⟨⟩
        exact hn

theorem modifyBundle {change : Bundle → Bundle} (h : contents.Sound)
    (hc : ∀ bundle, (change bundle).id = bundle.id)
    (hd : ∀ bundle, (change bundle).dependencies = bundle.dependencies) (id : BundleId) :
    { contents with bundles := Contents.modifyBundle id change contents.bundles }.Sound := by
  have hsame : ∀ bundle ∈ Contents.modifyBundle id change contents.bundles,
      ∃ other ∈ contents.bundles, other.id = bundle.id ∧
        other.dependencies = bundle.dependencies := by
    intro bundle hb
    have hmap : (Contents.modifyBundle id change contents.bundles).map
        (fun bundle => (bundle.id, bundle.dependencies)) =
          contents.bundles.map fun bundle => (bundle.id, bundle.dependencies) :=
      map_modifyBundle (fun bundle => Prod.ext (hc bundle) (hd bundle)) id _
    have hmem := List.mem_map_of_mem (f := fun bundle => (bundle.id, bundle.dependencies)) hb
    rw [hmap] at hmem
    obtain ⟨other, ho, he⟩ := List.mem_map.mp hmem
    exact ⟨other, ho, Prod.mk.inj he⟩
  refine ⟨⟨?_, ?_⟩, ?_, ?_⟩
  · intro bundle hb
    obtain ⟨other, ho, hid, _⟩ := hsame bundle hb
    rw [← hid]
    exact h.identified.isSome other ho
  · rw [map_modifyBundle hc]
    exact h.identified.nodup
  · intro bundle hb
    obtain ⟨other, ho, hid, hdependencies⟩ := hsame bundle hb
    rw [← hid, ← hdependencies]
    exact h.children other ho
  · rw [ids_modifyBundle contents hc]
    exact h.items

theorem insertWorksheet (h : contents.Sound) {worksheet : Worksheet}
    (hw : worksheet.NamesOnly contents.ids) :
    { contents with worksheets := contents.worksheets ++ [worksheet] }.Sound := by
  refine h.of_worksheets rfl ?_
  rw [List.forall_mem_append, List.forall_mem_singleton]
  exact ⟨h.items, hw⟩

end Sound

end Contents

/-! ### What can be done to a store -/

namespace Store

/-- What can be done to a store. -/
inductive Action where
  /-- It is called. -/
  | call (call : Call)
  /-- A bundle is frozen. -/
  | freeze (id : BundleId) (now : Timestamp)
  /-- The next calls are made to fail. -/
  | failNext (count : Nat) (error : StoreError)
  /-- What was called and created is forgotten. -/
  | resetCaptures
  /-- A bundle is stored as it is. -/
  | insertBundle (bundle : Bundle)
  /-- A worksheet is stored as it is. -/
  | insertWorksheet (worksheet : Worksheet)

/-- The store after an action, which may have failed. -/
def after (supply : IdSupply) (store : Store) : Action → Store
  | .call call => (handle supply call store).2
  | .freeze id now =>
    match store.freeze id now with
    | .ok next => next
    | .error _ => store
  | .failNext count error => store.failNext count error
  | .resetCaptures => store.resetCaptures
  | .insertBundle bundle => (store.insertBundle supply bundle).1
  | .insertWorksheet worksheet => store.insertWorksheet worksheet

/-- The store after some actions, one after another. -/
def afterAll (supply : IdSupply) (store : Store) (actions : List Action) : Store :=
  actions.foldl (after supply) store

/-- What is asked of an action: a bundle is stored under a new id, its own or the next of the supply, and
a worksheet that is stored has items for stored bundles only. -/
def Permits (supply : IdSupply) (store : Store) : Action → Prop
  | .call call => call.operation = .createBundle → supply store.allocated ∉ store.contents.ids
  | .insertBundle bundle => bundle.id.getD (supply store.allocated) ∉ store.contents.ids
  | .insertWorksheet worksheet => worksheet.NamesOnly store.contents.ids
  | .freeze _ _ | .failNext _ _ | .resetCaptures => True

/-- Each of some actions is permitted when its turn comes. -/
def PermitsAll (supply : IdSupply) (store : Store) : List Action → Prop
  | [] => True
  | action :: actions =>
    store.Permits supply action ∧ (store.after supply action).PermitsAll supply actions

instance (supply : IdSupply) (store : Store) :
    (action : Action) → Decidable (store.Permits supply action)
  | .call call => inferInstanceAs (Decidable
      (call.operation = .createBundle → supply store.allocated ∉ store.contents.ids))
  | .insertBundle bundle => inferInstanceAs (Decidable
      (bundle.id.getD (supply store.allocated) ∉ store.contents.ids))
  | .insertWorksheet worksheet => inferInstanceAs (Decidable
      (∀ item ∈ worksheet.items, ∀ id ∈ item.bundleId?, id ∈ store.contents.ids))
  | .freeze _ _ | .failNext _ _ | .resetCaptures => .isTrue trivial

instance decidablePermitsAll (supply : IdSupply) (store : Store) :
    (actions : List Action) → Decidable (store.PermitsAll supply actions)
  | [] => .isTrue trivial
  | action :: actions =>
    have := decidablePermitsAll supply (store.after supply action) actions
    inferInstanceAs (Decidable
      (store.Permits supply action ∧ (store.after supply action).PermitsAll supply actions))

/-- The contents are sound, and the created bundles are stored ones, in their order. -/
structure Sound (store : Store) : Prop where
  contents : store.contents.Sound
  created : store.createdBundles.Sublist store.contents.ids

variable {supply : IdSupply} {store next : Store} {action : Action} {actions : List Action}
  {id : BundleId} {now : Timestamp} {position : Nat} {bundle : Bundle}

theorem freeze_eq_ok (h : store.freeze id now = .ok next) : ∃ bundle,
    store.contents.bundle? id = some bundle ∧ bundle.frozen = none ∧ bundle.state.isFinal = true ∧
      next.createdBundles = store.createdBundles ∧
      next.contents = { store.contents with
        bundles := Contents.modifyBundle id (fun bundle => { bundle with frozen := some now })
          store.contents.bundles } := by
  unfold freeze at h
  split at h
  · cases h
  · rename_i bundle hb
    split at h
    · cases h
    · rename_i hfrozen
      split at h
      · cases h
      · rename_i hfinal
        cases h
        refine ⟨bundle, hb, ?_, ?_, rfl, rfl⟩
        · simpa [Bundle.checkNotFrozen] using hfrozen
        · simpa [Bundle.checkFreezable] using hfinal

/-! ### What an action keeps -/

namespace Sound

theorem empty : (ofContents .empty).Sound :=
  ⟨⟨⟨List.forall_mem_nil _, List.nodup_nil⟩, List.forall_mem_nil _, List.forall_mem_nil _⟩,
    List.nil_sublist _⟩

theorem congr (h : store.Sound) (hc : next.contents = store.contents)
    (hb : next.createdBundles = store.createdBundles) : next.Sound := by
  refine ⟨?_, ?_⟩
  · rw [hc]
    exact h.contents
  · rw [hc, hb]
    exact h.created

theorem addBundle (h : store.Sound) (hn : id ∉ store.contents.ids) {bundle : Bundle}
    (hc : next.contents = store.contents.addBundle (bundle.withId id))
    (hb : next.createdBundles = store.createdBundles) : next.Sound := by
  have hids : next.contents.ids = store.contents.ids ++ [id] := by
    rw [hc]
    exact Contents.ids_append rfl rfl
  refine ⟨?_, ?_⟩
  · rw [hc]
    exact h.contents.addBundle hn bundle
  · rw [hb, hids]
    exact h.created.trans (List.sublist_append_left _ _)

theorem createBundle (h : store.Sound) (hn : supply store.allocated ∉ store.contents.ids)
    {description made : Bundle} {target : WorksheetId} {placement : CreatePlacement}
    (hm : store.createBundle supply description target placement = .ok (made, next)) :
    next.Sound := by
  have hs : store.stock.Serves supply (.createBundle description target placement) (.ok made)
      next.stock := ⟨store, next, rfl, hm, rfl⟩
  have hcontents : next.contents = (store.contents.addBundle (store.contents.newBundle description
      (supply store.allocated))).placeNew (supply store.allocated) target placement :=
    hs.createBundle_eq.2
  have hids : next.contents.ids = store.contents.ids ++ [supply store.allocated] :=
    hs.createBundle_ids
  have hcreated : next.createdBundles = store.createdBundles ++ [supply store.allocated] := by
    unfold Store.createBundle at hm
    split at hm
    · cases hm
    · split at hm
      · cases hm
      · obtain ⟨-, rfl⟩ := Prod.mk.inj (Except.ok.inj hm)
        rfl
  have hnew : supply store.allocated ∈ (store.contents.addBundle (store.contents.newBundle
      description (supply store.allocated))).ids :=
    Contents.mem_ids.mpr ⟨_, List.mem_append_right _ List.mem_cons_self, rfl⟩
  refine ⟨?_, ?_⟩
  · rw [hcontents]
    exact (h.contents.addBundle hn _).placeNew hnew target placement
  · rw [hcreated, hids]
    exact h.created.append (List.Sublist.refl _)

theorem createWorksheetItem (h : store.Sound) {item made : WorksheetItem} {target : WorksheetId}
    (hm : store.createWorksheetItem item target = .ok (made, next)) : next.Sound := by
  unfold Store.createWorksheetItem at hm
  split at hm
  · cases hm
  · rename_i hstored
    split at hm
    · cases hm
    · obtain ⟨-, rfl⟩ := Prod.mk.inj (Except.ok.inj hm)
      refine ⟨h.contents.addItem ?_ target, h.created⟩
      intro id hid
      rw [← Contents.bundle?_isSome_iff, Option.isSome_iff_ne_none]
      simpa using Option.filter_eq_none_iff.mp hstored id hid

/-- A call that is answered keeps a store sound. -/
theorem answer (h : store.Sound) {call : Call} (hp : store.Permits supply (.call call))
    {answer : call.Answer} (ha : store.answer supply call = .ok (answer, next)) : next.Sound := by
  have hsame : ∀ found : Except StoreError call.Answer,
      found.map (·, store) = .ok (answer, next) → next.Sound := by
    intro found hfound
    rw [(Stock.Serves.map_eq_ok hfound).2]
    exact h
  cases call with
  | fetchBundles => exact hsame _ ha
  | fetchBundle => exact hsame _ ha
  | fetchWorksheetsByBundle => exact hsame (.ok _) ha
  | fetchWorksheet => exact hsame _ ha
  | createBundle => exact h.createBundle (hp rfl) ha
  | createWorksheetItem => exact h.createWorksheetItem ha
  | searchBundles => exact hsame (.ok _) ha

/-- A call keeps a store sound, whether or not it fails. -/
theorem handle (h : store.Sound) {call : Call} (hp : store.Permits supply (.call call)) :
    (Store.handle supply call store).2.Sound := by
  unfold Store.handle
  cases hf : store.failures with
  | cons error failures => exact h.congr rfl rfl
  | nil =>
      have hcounted : Sound
          { store with counts := store.counts.bump call.operation, failures := [] } :=
        h.congr rfl rfl
      dsimp only
      split
      · rename_i answer next ha
        exact hcounted.answer hp ha
      · exact hcounted

theorem freeze (h : store.Sound) (hm : store.freeze id now = .ok next) : next.Sound := by
  obtain ⟨_, _, _, _, hcreated, hcontents⟩ := freeze_eq_ok hm
  let change : Bundle → Bundle := fun bundle => { bundle with frozen := some now }
  have hid : ∀ bundle, (change bundle).id = bundle.id := fun _ => rfl
  have hids : next.contents.ids = store.contents.ids := by
    rw [hcontents]
    exact Contents.ids_modifyBundle store.contents hid id
  refine ⟨?_, ?_⟩
  · rw [hcontents]
    exact h.contents.modifyBundle hid (fun _ => rfl) id
  · rw [hcreated, hids]
    exact h.created

/-- **A permitted action keeps a store sound.** -/
theorem after (h : store.Sound) (hp : store.Permits supply action) :
    (store.after supply action).Sound := by
  cases action with
  | call call => exact h.handle hp
  | freeze id now =>
      simp only [Store.after]
      split
      · rename_i next hm
        exact h.freeze hm
      · exact h
  | failNext count error => exact h.congr rfl rfl
  | resetCaptures => exact ⟨h.contents, List.nil_sublist _⟩
  | insertBundle bundle =>
      simp only [Permits] at hp
      simp only [Store.after, Store.insertBundle]
      cases hid : bundle.id with
      | some id =>
          rw [hid, Option.getD_some] at hp
          exact h.addBundle hp rfl rfl
      | none =>
          rw [hid, Option.getD_none] at hp
          exact h.addBundle hp rfl rfl
  | insertWorksheet worksheet => exact ⟨h.contents.insertWorksheet hp, h.created⟩

/-- Permitted actions keep a store sound, however many there are. -/
theorem afterAll (h : store.Sound) (hp : store.PermitsAll supply actions) :
    (store.afterAll supply actions).Sound := by
  induction actions generalizing store with
  | nil => exact h
  | cons action actions ih => exact ih (h.after hp.1) hp.2

end Sound

theorem PermitsAll.of_append {front back : List Action}
    (h : store.PermitsAll supply (front ++ back)) : store.PermitsAll supply front := by
  induction front generalizing store with
  | nil => trivial
  | cons action front ih => exact ⟨h.1, ih h.2⟩

/-! ### What is stored for a bundle -/

/-- At every time between some actions, this is stored at a position. -/
def Keeps (supply : IdSupply) (store : Store) (actions : List Action) (position : Nat)
    (bundle : Bundle) : Prop :=
  ∀ front, front <+: actions →
    (store.afterAll supply front).contents.bundles[position]? = some bundle

/-- What is stored at a position stays the same during some actions, unless one of them freezes it: it
came to rest and was not frozen before, and it stays the same until then and, frozen, from then on. -/
def Lasts (supply : IdSupply) (store : Store) (actions : List Action) (position : Nat)
    (bundle : Bundle) : Prop :=
  store.Keeps supply actions position bundle ∨
    ∃ front id now back, actions = front ++ .freeze id now :: back ∧
      bundle.id = some id ∧ bundle.frozen = none ∧ bundle.state.isFinal = true ∧
      store.Keeps supply front position bundle ∧
      (store.afterAll supply (front ++ [.freeze id now])).Keeps supply back position
        { bundle with frozen := some now }

theorem keeps_nil (h : store.contents.bundles[position]? = some bundle) :
    store.Keeps supply [] position bundle := by
  intro front hf
  rw [List.prefix_nil.mp hf]
  exact h

theorem keeps_cons (h : store.contents.bundles[position]? = some bundle)
    (hr : (store.after supply action).Keeps supply actions position bundle) :
    store.Keeps supply (action :: actions) position bundle := by
  intro front hf
  rcases List.prefix_cons_iff.mp hf with rfl | ⟨rest, rfl, hrest⟩
  · exact h
  · exact hr rest hrest

/-- An action leaves what is stored for a bundle alone, unless it freezes the bundle. -/
theorem getElem?_after (supply : IdSupply) (action : Action)
    (h : store.contents.bundles[position]? = some bundle) :
    (store.after supply action).contents.bundles[position]? = some bundle ∨
      ∃ id now, action = .freeze id now ∧ bundle.id = some id ∧ bundle.frozen = none ∧
        bundle.state.isFinal = true ∧
        (store.after supply action).contents.bundles[position]? =
          some { bundle with frozen := some now } := by
  have hgrown : ∀ {next : Store}, store.contents.bundles <+: next.contents.bundles →
      next.contents.bundles[position]? = some bundle := by
    rintro next ⟨more, hmore⟩
    rw [← hmore, List.getElem?_append_left (List.getElem?_eq_some_iff.mp h).1]
    exact h
  cases action with
  | call call => exact .inl (hgrown (handle_serves supply call store).extends_contents.bundles)
  | freeze id now =>
      simp only [after]
      split
      · rename_i next hm
        obtain ⟨found, hfound, hfrozen, hfinal, _, hcontents⟩ := freeze_eq_ok hm
        rw [hcontents]
        refine (Contents.getElem?_modifyBundle h id _).imp_right ?_
        rintro ⟨hfirst, hchanged⟩
        obtain rfl := Option.some.inj (hfound.symm.trans hfirst)
        exact ⟨id, now, rfl, (Contents.mem_of_bundle? hfound).2, hfrozen, hfinal, hchanged⟩
      · exact .inl h
  | failNext count error => exact .inl h
  | resetCaptures => exact .inl h
  | insertBundle bundle =>
      refine .inl (hgrown ?_)
      simp only [after, insertBundle]
      split <;> exact List.prefix_append _ _
  | insertWorksheet worksheet => exact .inl h

/-- **What is stored for a bundle never changes**, but that it may be frozen, once. -/
theorem lasts_afterAll (supply : IdSupply) (actions : List Action)
    (h : store.contents.bundles[position]? = some bundle) :
    store.Lasts supply actions position bundle := by
  induction actions generalizing store bundle with
  | nil => exact .inl (keeps_nil h)
  | cons action actions ih =>
      rcases getElem?_after supply action h with hsame | ⟨id, now, rfl, hid, hfrozen, hfinal, hnow⟩
      · rcases ih hsame with hkeeps | ⟨front, id, now, back, rfl, hid, hfrozen, hfinal, hfront, hback⟩
        · exact .inl (keeps_cons h hkeeps)
        · exact .inr ⟨action :: front, id, now, back, rfl, hid, hfrozen, hfinal,
            keeps_cons h hfront, hback⟩
      · refine .inr ⟨[], id, now, actions, rfl, hid, hfrozen, hfinal, keeps_nil h, ?_⟩
        -- It is frozen now, so it is not frozen again.
        rcases ih hnow with hkeeps | ⟨_, _, _, _, _, _, hagain, _⟩
        · exact hkeeps
        · cases hagain

/-- **Sound stores stay sound**: at every time during actions that are permitted the store is sound, and
what is stored for a bundle by then lasts during all actions that follow. -/
theorem runs_keep_sound (supply : IdSupply) (store : Store) (front back : List Action)
    (hs : store.Sound) (hp : store.PermitsAll supply (front ++ back)) :
    (store.afterAll supply front).Sound ∧ ∀ position bundle,
      (store.afterAll supply front).contents.bundles[position]? = some bundle →
        (store.afterAll supply front).Lasts supply back position bundle :=
  ⟨hs.afterAll hp.of_append, fun _ _ h => lasts_afterAll supply back h⟩

/-- The bundle that another is made from. -/
def source : Bundle :=
  { Bundle.ofName .dataset "raw" with state := .ready }

/-- A store is filled with it. -/
def filling : List Action :=
  [.insertWorksheet ⟨"w", "work", none, []⟩, .insertBundle source,
    .call (.createWorksheetItem (.bundle "|") "w")]

/-- Another bundle is made from it, it is frozen, and the last call is made to fail. -/
def usage : List Action :=
  [.call (.createBundle (.mounting .run "prep" (some "prep") ["|"]) "w" (.shadow "|")),
    .freeze "|" ⟨⟨2024, 2, 29⟩, ⟨12, 0, 0, 0⟩, by decide⟩, .failNext 1 (.internal "full"),
    .call (.createBundle (.mounting .run "train" (some "train") ["||"]) "w" .detached)]

/-- The store is sound once it is filled, and the bundle lasts while it is used. -/
theorem filling_keeps_sound :
    let filled := (ofContents .empty).afterAll Stock.strokes filling
    filled.Sound ∧ filled.Lasts Stock.strokes usage 0 (source.withId "|") ∧
      (filled.afterAll Stock.strokes usage).contents.worksheets.map Worksheet.items =
        [[.bundle "|", .bundle "||"]] := by
  intro filled
  have hstored : filled.contents.bundles[0]? = some (source.withId "|") := by decide +kernel
  have hitems : (filled.afterAll Stock.strokes usage).contents.worksheets.map Worksheet.items =
      [[.bundle "|", .bundle "||"]] := by
    decide +kernel
  obtain ⟨hsound, hlasts⟩ := runs_keep_sound Stock.strokes (ofContents .empty) filling usage .empty
    (by decide +kernel)
  exact ⟨hsound, hlasts 0 _ hstored, hitems⟩

end Store

end Provenance
