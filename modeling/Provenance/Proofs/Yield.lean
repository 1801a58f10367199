import Provenance.Proofs.Spread

/-!
# What a replacement yields

On a graph without cycles the parents of a bundle are mapped before it is replaced, and what is mapped
stays.  So what was made for the replaced bundles can be read off the state at the end, where every
parent has what stands in for it: the plan, the ids that were given out, and the stored bundles.

* `Replayer.Yields.add`: one more bundle is replaced, and what was made for the others is the same.
* `Replayer.Yields.kept`: walks keep this if no equivalent bundles are taken over and nothing is
  shadowed.
-/

namespace Provenance

open Dialogue

namespace Contents

/-- Puts some bundles behind all others. -/
def addBundles (contents : Contents) (bundles : List Bundle) : Contents :=
  { contents with bundles := contents.bundles ++ bundles }

theorem addBundles_nil (contents : Contents) : contents.addBundles [] = contents := by
  rw [addBundles, List.append_nil]

theorem addBundles_append (contents : Contents) (bundles more : List Bundle) :
    contents.addBundles (bundles ++ more) = (contents.addBundles bundles).addBundles more := by
  simp only [addBundles, List.append_assoc]

end Contents

namespace Stock

/-- The ids that were given out between two stocks. -/
def given (supply : IdSupply) (before after : Stock) : List BundleId :=
  (List.range' before.allocated (after.allocated - before.allocated)).map supply

variable {supply : IdSupply} {before mid after : Stock}

theorem given_self (supply : IdSupply) (stock : Stock) : stock.given supply stock = [] := by
  simp [given]

theorem given_trans (h : before.allocated ≤ mid.allocated) (h' : mid.allocated ≤ after.allocated) :
    before.given supply after = before.given supply mid ++ mid.given supply after := by
  have hsplit : after.allocated - before.allocated =
      (mid.allocated - before.allocated) + (after.allocated - mid.allocated) := by omega
  have hnext : before.allocated + (mid.allocated - before.allocated) = mid.allocated := by omega
  rw [given, given, given, hsplit, ← List.range'_append_1, List.map_append, hnext]

theorem mem_given {id : BundleId} : id ∈ before.given supply after ↔
    ∃ n, before.allocated ≤ n ∧ n < after.allocated ∧ supply n = id := by
  rw [given, List.mem_map]
  refine exists_congr fun n => ?_
  rw [List.mem_range'_1, ← and_assoc]
  refine and_congr_left fun _ => ?_
  omega

end Stock

namespace Replayer

variable {supply : IdSupply} {origin stock after : Stock} {request : Request} {cache : Cache}
  {replayer next : Replayer} {ids : List BundleId} {id current : BundleId} {old made : Bundle}
  {contents : Contents} {new : Option BundleId} {row : BundleId × Bundle}
  {rows : List (BundleId × Bundle)}

/-! ### What is made for a bundle -/

/-- The id of what stands in for an old bundle, if something does that has one. -/
def newId? (replayer : Replayer) (id : BundleId) : Option BundleId :=
  (replayer.substitutions.get? id).join

/-- The bundle that is stored for a replaced one, if anything is created for it. -/
def stored? (replayer : Replayer) (request : Request) (contents : Contents)
    (row : BundleId × Bundle) : Option Bundle :=
  (replayer.newId? row.1).map (contents.newBundle (replayer.description request row.1 row.2))

/-- What is planned for a replaced bundle: what was created, or else what would be. -/
def entry (replayer : Replayer) (request : Request) (contents : Contents)
    (row : BundleId × Bundle) : PlanEntry :=
  ⟨row.2, ((replayer.stored? request contents row).map Bundle.explained).getD
    (replayer.description request row.1 row.2)⟩

/-- A description depends on what stands in for the parents only. -/
theorem description_congr
    (h : ∀ parent ∈ old.parents, next.standIn parent = replayer.standIn parent) :
    next.description request id old = replayer.description request id old := by
  rw [description, description, standIns_congr h]

theorem newId?_of_add (hs : next.substitutions = replayer.substitutions.add current new)
    (hc : replayer.substitutions.contains id = true) : next.newId? id = replayer.newId? id := by
  rw [newId?, newId?, get?_of_add hs hc]

theorem newId?_of_add_self (hs : next.substitutions = replayer.substitutions.add current new)
    (hc : ¬ replayer.substitutions.contains current = true) : next.newId? current = new := by
  rw [newId?, hs, Register.get?_add_self _ hc]
  rfl

theorem description_of_add (hs : next.substitutions = replayer.substitutions.add current new)
    (hparents : ∀ parent ∈ old.parents, replayer.substitutions.contains parent = true) :
    next.description request id old = replayer.description request id old := by
  rw [description, description, standIns_of_add hs hparents]

/-! ### What walks yield -/

/-- What walks have made of an initial stock: each of some bundles is replaced, in this order. -/
structure Yields (supply : IdSupply) (request : Request) (cache : Cache) (origin : Stock)
    (rows : List (BundleId × Bundle)) (replayer : Replayer) (stock : Stock) : Prop where
  nodup : (rows.map Prod.fst).Nodup
  replaced : ∀ row ∈ rows, cache.get? row.1 = some row.2 ∧
    replayer.substitutions.contains row.1 = true ∧
    ¬ (start request).substitutions.contains row.1 = true
  downstream : replayer.downstream = (rows.map Prod.fst).reverse ++ (start request).downstream
  plan : replayer.plan = rows.map (replayer.entry request origin.contents)
  created : replayer.created = rows.filterMap fun row => replayer.newId? row.1
  supplied : replayer.created = origin.given supply stock
  allocated : origin.allocated ≤ stock.allocated
  contents : stock.contents =
    origin.contents.addBundles (rows.filterMap (replayer.stored? request origin.contents))
  /-- A dry run creates nothing. -/
  planned : request.dryRun = true → ∀ row ∈ rows, replayer.newId? row.1 = none
  /-- A real run creates something for each bundle, which must be derived and have a target. -/
  made : request.dryRun = false → ∀ row ∈ rows, (replayer.newId? row.1).isSome = true ∧
    row.2.kind.isDerived = true ∧
    (origin.contents.worksheet? request.worksheet).isSome = true

namespace Yields

theorem start (supply : IdSupply) (request : Request) (cache : Cache) (origin : Stock) :
    Yields supply request cache origin [] (start request) origin where
  nodup := List.nodup_nil
  replaced := List.forall_mem_nil _
  downstream := rfl
  plan := rfl
  created := rfl
  supplied := (Stock.given_self supply origin).symm
  allocated := Nat.le_refl _
  contents := (Contents.addBundles_nil _).symm
  planned _ := List.forall_mem_nil _
  made _ := List.forall_mem_nil _

theorem parents (h : Yields supply request cache origin rows replayer stock)
    (hspread : Spread request cache ids replayer) (hrow : row ∈ rows) :
    ∀ parent ∈ row.2.parents, replayer.substitutions.contains parent = true := by
  obtain ⟨ho, hc, hn⟩ := h.replaced row hrow
  exact hspread.closed row.1 row.2 hc hn ho

theorem newId?_eq (h : Yields supply request cache origin rows replayer stock)
    (hs : next.substitutions = replayer.substitutions.add current new) (hrow : row ∈ rows) :
    next.newId? row.1 = replayer.newId? row.1 :=
  newId?_of_add hs (h.replaced row hrow).2.1

theorem newIds_eq (h : Yields supply request cache origin rows replayer stock)
    (hs : next.substitutions = replayer.substitutions.add current new) :
    rows.filterMap (fun row => next.newId? row.1) =
      rows.filterMap fun row => replayer.newId? row.1 :=
  List.filterMap_congr fun _ hrow => h.newId?_eq hs hrow

/-- What was stored for a bundle is the same when one more is mapped. -/
theorem stored?_eq (h : Yields supply request cache origin rows replayer stock)
    (hspread : Spread request cache ids replayer)
    (hs : next.substitutions = replayer.substitutions.add current new) (hrow : row ∈ rows)
    (contents : Contents) :
    next.stored? request contents row = replayer.stored? request contents row := by
  rw [stored?, stored?, h.newId?_eq hs hrow, description_of_add hs (h.parents hspread hrow)]

theorem storedAll_eq (h : Yields supply request cache origin rows replayer stock)
    (hspread : Spread request cache ids replayer)
    (hs : next.substitutions = replayer.substitutions.add current new) (contents : Contents) :
    rows.filterMap (next.stored? request contents) =
      rows.filterMap (replayer.stored? request contents) :=
  List.filterMap_congr fun _ hrow => h.stored?_eq hspread hs hrow contents

theorem entries_eq (h : Yields supply request cache origin rows replayer stock)
    (hspread : Spread request cache ids replayer)
    (hs : next.substitutions = replayer.substitutions.add current new) (contents : Contents) :
    rows.map (next.entry request contents) = rows.map (replayer.entry request contents) := by
  refine List.map_congr_left fun row hrow => ?_
  rw [entry, entry, h.stored?_eq hspread hs hrow, description_of_add hs (h.parents hspread hrow)]

theorem map (h : Yields supply request cache origin rows replayer stock)
    (hspread : Spread request cache ids replayer) (current : BundleId) (new : Option BundleId) :
    Yields supply request cache origin rows (replayer.map current new) stock where
  nodup := h.nodup
  replaced row hrow := by
    obtain ⟨ho, hc, hn⟩ := h.replaced row hrow
    exact ⟨ho, (Register.contains_add ..).mpr (.inr hc), hn⟩
  downstream := h.downstream
  plan := h.plan.trans (h.entries_eq hspread rfl _).symm
  created := h.created.trans (h.newIds_eq rfl).symm
  supplied := h.supplied
  allocated := h.allocated
  contents := by
    rw [h.storedAll_eq hspread (map_substitutions new)]
    exact h.contents
  planned hd row hrow := by rw [h.newId?_eq rfl hrow, h.planned hd row hrow]
  made hd row hrow := by
    rw [h.newId?_eq rfl hrow]
    exact h.made hd row hrow

/-- **One more bundle is replaced**, whose parents are mapped. -/
theorem add (h : Yields supply request cache origin rows replayer stock)
    (hspread : Spread request cache ids replayer)
    (hc : ¬ replayer.substitutions.contains current = true) (ho : cache.get? current = some old)
    (hs : next.substitutions = replayer.substitutions.add current new)
    (hd : next.downstream = current :: replayer.downstream)
    (hp : next.plan = replayer.plan ++ [next.entry request origin.contents (current, old)])
    (hcreated : next.created = replayer.created ++ new.toList)
    (hnew : new.toList = stock.given supply after)
    (hallocated : stock.allocated ≤ after.allocated)
    (hcontents : after.contents = stock.contents.addBundles
      (next.stored? request origin.contents (current, old)).toList)
    (hplanned : request.dryRun = true → new = none)
    (hmade : request.dryRun = false → new.isSome = true ∧ old.kind.isDerived = true ∧
      (origin.contents.worksheet? request.worksheet).isSome = true) :
    Yields supply request cache origin (rows ++ [(current, old)]) next after := by
  have hself : next.newId? current = new := newId?_of_add_self hs hc
  have hcontains : ∀ other, next.substitutions.contains other = true ↔
      other = current ∨ replayer.substitutions.contains other = true := by
    intro other
    rw [hs, Register.contains_add]
  have hstart : ¬ (Replayer.start request).substitutions.contains current = true := fun hm =>
    hc (hspread.reached current (hspread.inputs current hm)).2
  refine ⟨?_, ?_, ?_, ?_, ?_, ?_, ?_, ?_, ?_, ?_⟩
  · rw [List.map_append, List.nodup_append]
    refine ⟨h.nodup, List.nodup_singleton current, ?_⟩
    rintro other hother last hlast rfl
    obtain rfl : other = current := List.mem_singleton.mp hlast
    obtain ⟨row, hrow, rfl⟩ := List.mem_map.mp hother
    exact hc (h.replaced row hrow).2.1
  · rw [List.forall_mem_append]
    refine ⟨fun row hrow => ?_, List.forall_mem_singleton.mpr ⟨ho, ?_, hstart⟩⟩
    · obtain ⟨hcache, hmapped, hn⟩ := h.replaced row hrow
      exact ⟨hcache, (hcontains row.1).mpr (.inr hmapped), hn⟩
    · exact (hcontains current).mpr (.inl rfl)
  · rw [hd, h.downstream, List.map_append, List.reverse_append]
    rfl
  · rw [hp, h.plan, List.map_append, h.entries_eq hspread hs]
    rfl
  · rw [hcreated, h.created, List.filterMap_append, h.newIds_eq hs, ← hself]
    rfl
  · rw [hcreated, h.supplied, hnew, ← Stock.given_trans h.allocated hallocated]
  · exact h.allocated.trans hallocated
  · rw [hcontents, h.contents, List.filterMap_append, h.storedAll_eq hspread hs,
      Contents.addBundles_append]
    rfl
  · intro hdry
    rw [List.forall_mem_append]
    refine ⟨fun row hrow => ?_, List.forall_mem_singleton.mpr (hself.trans (hplanned hdry))⟩
    rw [h.newId?_eq hs hrow, h.planned hdry row hrow]
  · intro hreal
    rw [List.forall_mem_append]
    refine ⟨fun row hrow => ?_, List.forall_mem_singleton.mpr ?_⟩
    · rw [h.newId?_eq hs hrow]
      exact h.made hreal row hrow
    · rw [hself]
      exact hmade hreal

theorem create (h : Yields supply request cache origin rows replayer stock)
    (hspread : Spread request cache ids replayer) (hshadow : request.shadow = false)
    (hc : ¬ replayer.substitutions.contains current = true) (ho : cache.get? current = some old)
    (hparents : ∀ parent ∈ old.parents, replayer.substitutions.contains parent = true)
    (hd : request.dryRun = false) (hk : old.kind.isDerived = true)
    (hserves : stock.Serves supply (.createBundle (replayer.description request current old)
      request.worksheet (placement request current)) (.ok made) after) :
    Yields supply request cache origin (rows ++ [(current, old)])
      ((replayer.record current old made).countCreated made) after := by
  obtain ⟨hmade, _, hallocated⟩ := hserves.createBundle
  obtain ⟨hworksheet, hcontents⟩ := hserves.createBundle_eq
  have hplacement : placement request current = .detached := by simp [placement, hshadow]
  rw [hplacement] at hcontents
  have howner : origin.contents.ownerId = stock.contents.ownerId := by
    rw [h.contents, Contents.addBundles]
  have hid : made.id = some (supply stock.allocated) := by
    rw [hmade]
    rfl
  have hs : ((replayer.record current old made).countCreated made).substitutions =
      replayer.substitutions.add current (some (supply stock.allocated)) :=
    congrArg (replayer.substitutions.add current) hid
  have hstored : ((replayer.record current old made).countCreated made).stored? request
      origin.contents (current, old) = some (stock.contents.newBundle
        (replayer.description request current old) (supply stock.allocated)) := by
    rw [stored?, newId?_of_add_self hs hc, description_of_add hs hparents, Option.map_some,
      Contents.newBundle_congr howner]
  refine h.add hspread hc ho hs rfl ?_ ?_ ?_ (by omega) ?_ ?_ ?_
  · rw [entry, hstored, Option.map_some, Option.getD_some, ← hmade]
    rfl
  · rw [← hid]
    rfl
  · rw [Stock.given, hallocated, Nat.add_sub_cancel_left]
    rfl
  · rw [hcontents, hstored]
    rfl
  · intro hdry
    rw [hd] at hdry
    cases hdry
  · intro _
    rw [h.contents] at hworksheet
    exact ⟨rfl, hk, hworksheet⟩

/-- What resolving a bundle adds to what walks yield. -/
theorem resolve (h : Yields supply request cache origin rows replayer stock)
    (hspread : Spread request cache ids replayer) (hm : request.memoize = false)
    (hshadow : request.shadow = false) (hc : ¬ replayer.substitutions.contains current = true)
    (ho : cache.get? current = some old)
    (hparents : ∀ parent ∈ old.parents, replayer.substitutions.contains parent = true)
    (hr : Resolution supply request replayer current old stock next after) :
    ∃ rows, Yields supply request cache origin rows next after := by
  cases hr with
  | unaffected => exact ⟨rows, h.map hspread current _⟩
  | planned _ hd =>
      have hs : (replayer.record current old
          (replayer.description request current old)).substitutions =
          replayer.substitutions.add current none := rfl
      have hstored : (replayer.record current old (replayer.description request current old)).stored?
          request origin.contents (current, old) = none := by
        rw [stored?, newId?_of_add_self hs hc, Option.map_none]
      refine ⟨_, h.add hspread hc ho hs rfl ?_ (List.append_nil _).symm ?_ (Nat.le_refl _) ?_
        (fun _ => rfl) ?_⟩
      · rw [entry, hstored, description_of_add hs hparents]
        rfl
      · exact (Stock.given_self supply _).symm
      · rw [hstored]
        exact (Contents.addBundles_nil _).symm
      · intro hreal
        rw [hd] at hreal
        cases hreal
  | reused _ _ hmemoize =>
      rw [hm] at hmemoize
      cases hmemoize
  | created _ hd _ hk hserves => exact ⟨_, h.create hspread hshadow hc ho hparents hd hk hserves⟩

/-- Walks keep what they yield, if no equivalent bundles are taken over and nothing is shadowed. -/
theorem kept (supply : IdSupply) (ha : cache.Acyclic) (hm : request.memoize = false)
    (hshadow : request.shadow = false) (origin : Stock) (ids : List BundleId) :
    Kept supply request cache (Replayer.start request) ids fun replayer stock =>
      Spread request cache ids replayer ∧
        ∃ rows, Yields supply request cache origin rows replayer stock where
  keep := by
    rintro replayer stock current ⟨hspread, rows, h⟩ hc hv hn
    exact ⟨hspread.keep hc hv hn, rows, h.map hspread current _⟩
  resolve := by
    rintro replayer next stock after current old ⟨hspread, rows, h⟩ hc hv ho hparents hr
    have hmapped := contains_parents ha ho hparents
    exact ⟨hspread.resolve hc hv ho hmapped hr, h.resolve hspread hm hshadow hc ho hmapped hr⟩

end Yields

end Replayer

end Provenance
