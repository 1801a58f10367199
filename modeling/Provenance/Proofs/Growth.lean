import Provenance.Proofs.Additions
import Provenance.Proofs.Phases

/-!
# The store grows by the plan

A `Step` is an entry of a plan, and whether its new bundle was created.  `Growth` says how the plan,
the bundles that are stored and the ids that count as created go together: the bundles are those
that were there before, followed by the new bundle of each step that created one.

* `Growth.resolve`: resolving a bundle adds at most one step.
* `Request.replay_grows`: a replay that succeeds has grown the store by its plan, and the steps that
  created a bundle are those that its calls created one for.
-/

namespace Provenance

open Dialogue

/-- An entry of a plan, and whether its new bundle was created or taken over. -/
structure Step where
  entry : PlanEntry
  isNew : Bool

/-- The bundle that a step puts into the store: the new one of its entry, if it was created.  What is
stored has no explanation of its state. -/
def Step.stored? (step : Step) : Option Bundle :=
  if step.isNew then some { step.entry.new with stateDetails := none } else none

/-- The new bundle of an entry has just been created: it belongs to the owner of the store, has the
kind and the command of the old one, and nothing has happened to it yet. -/
structure PlanEntry.Made (entry : PlanEntry) (ownerId : Option String) : Prop where
  id : entry.new.id.isSome = true
  state : entry.new.state = .created
  frozen : entry.new.frozen = none
  dataHash : entry.new.dataHash = none
  ownerId : entry.new.ownerId = ownerId
  kind : entry.new.kind = entry.old.kind
  command : entry.new.command = entry.old.command

/-- By some steps, the contents have grown out of initial ones. -/
structure Growth (initial : Contents) (steps : List Step) (replayer : Replayer)
    (contents : Contents) : Prop where
  ownerId : contents.ownerId = initial.ownerId
  plan : replayer.plan = steps.map Step.entry
  bundles : contents.bundles = initial.bundles ++ steps.filterMap Step.stored?
  created : replayer.created.map some = (steps.filterMap Step.stored?).map Bundle.id
  made : ∀ step ∈ steps, step.isNew = true → step.entry.Made initial.ownerId
  /-- What was taken over was stored already. -/
  taken : ∀ front step back, steps = front ++ step :: back → step.isNew = false →
    ∃ id, step.entry.new.id = some id ∧
      ∃ stored ∈ initial.bundles ++ front.filterMap Step.stored?, stored.id = some id

namespace Growth

variable {supply : IdSupply} {request : Request} {initial contents : Contents} {steps : List Step}
  {replayer next : Replayer} {stock after : Stock} {id : BundleId} {old made : Bundle}

theorem start (initial : Contents) (request : Request) :
    Growth initial [] (.start request) initial where
  ownerId := rfl
  plan := rfl
  bundles := (List.append_nil _).symm
  created := rfl
  made := List.forall_mem_nil _
  taken front step back h := by simp at h

theorem map (h : Growth initial steps replayer contents) (id : BundleId) (new : Option BundleId) :
    Growth initial steps (replayer.map id new) contents :=
  ⟨h.ownerId, h.plan, h.bundles, h.created, h.made, h.taken⟩

theorem isSome (h : Growth initial steps replayer contents)
    (hi : ∀ bundle ∈ initial.bundles, bundle.id.isSome = true) :
    ∀ bundle ∈ contents.bundles, bundle.id.isSome = true := by
  intro bundle hb
  rw [h.bundles] at hb
  rcases List.mem_append.mp hb with hb | hb
  · exact hi bundle hb
  · obtain ⟨step, hstep, hstored⟩ := List.mem_filterMap.mp hb
    unfold Step.stored? at hstored
    split at hstored
    · rename_i hnew
      cases hstored
      exact (h.made step hstep hnew).id
    · cases hstored

theorem append_eq {front back : List Step} {last step : Step}
    (h : steps ++ [last] = front ++ step :: back) :
    (front = steps ∧ step = last) ∨ ∃ rest, steps = front ++ step :: rest := by
  rcases List.eq_nil_or_concat back with rfl | ⟨rest, other, rfl⟩
  · obtain ⟨hfront, hlast⟩ := List.append_inj' h rfl
    exact .inl ⟨hfront.symm, (List.cons.inj hlast).1.symm⟩
  · have hsplit : steps ++ [last] = (front ++ step :: rest) ++ [other] := by simpa using h
    exact .inr ⟨rest, (List.append_inj' hsplit rfl).1⟩

theorem take (h : Growth initial steps replayer contents)
    (hi : ∀ bundle ∈ initial.bundles, bundle.id.isSome = true) {existing : Bundle}
    (hs : ∃ stored ∈ contents.bundles, existing = stored.explained) :
    Growth initial (steps ++ [⟨⟨old, existing⟩, false⟩]) (replayer.record id old existing)
      contents := by
  obtain ⟨stored, hstored, rfl⟩ := hs
  refine ⟨h.ownerId, ?_, ?_, ?_, ?_, ?_⟩
  · simp [Replayer.record, h.plan]
  · simp [Step.stored?, h.bundles]
  · simpa [Replayer.record, Step.stored?] using h.created
  · intro step hstep hnew
    rcases List.mem_append.mp hstep with hstep | hstep
    · exact h.made step hstep hnew
    · obtain rfl := List.mem_singleton.mp hstep
      cases hnew
  · intro front step back hsplit hold
    rcases append_eq hsplit with ⟨rfl, rfl⟩ | ⟨rest, hrest⟩
    · obtain ⟨own, hown⟩ := Option.isSome_iff_exists.mp (h.isSome hi stored hstored)
      rw [h.bundles] at hstored
      exact ⟨own, hown, stored, hstored, hown⟩
    · exact h.taken front step rest hrest hold

theorem create (h : Growth initial steps replayer stock.contents)
    (hs : stock.Serves supply (.createBundle (replayer.description request id old)
      request.worksheet (Replayer.placement request id)) (.ok made) after) :
    Growth initial (steps ++ [⟨⟨old, made⟩, true⟩])
      ((replayer.record id old made).countCreated made) after.contents := by
  obtain ⟨rfl, hbundles, _⟩ := hs.createBundle
  have howner := hs.ownerId_eq
  refine ⟨howner.trans h.ownerId, ?_, ?_, ?_, ?_, ?_⟩
  · simp [Replayer.countCreated, Replayer.record, h.plan]
  · rw [hbundles, h.bundles]
    simp [Step.stored?]
    rfl
  · rw [List.filterMap_append, List.map_append, ← h.created]
    exact List.map_append
  · intro step hstep hnew
    rcases List.mem_append.mp hstep with hstep | hstep
    · exact h.made step hstep hnew
    · obtain rfl := List.mem_singleton.mp hstep
      exact ⟨rfl, rfl, rfl, rfl, h.ownerId, rfl, rfl⟩
  · intro front step back hsplit hold
    rcases append_eq hsplit with ⟨rfl, rfl⟩ | ⟨rest, hrest⟩
    · cases hold
    · exact h.taken front step rest hrest hold

/-- **Resolving a bundle** adds a step or none. -/
theorem resolve (h : Growth initial steps replayer stock.contents)
    (hi : ∀ bundle ∈ initial.bundles, bundle.id.isSome = true) (hd : request.dryRun = false)
    (hr : Replayer.Resolution supply request replayer id old stock next after) :
    ∃ steps', Growth initial steps' next after.contents := by
  cases hr with
  | unaffected => exact ⟨steps, h.map id _⟩
  | planned _ hdry =>
      rw [hd] at hdry
      cases hdry
  | reused _ _ _ hs =>
      obtain ⟨stored, hstored, _, hexisting⟩ := Contents.exists_of_getLast?_searchBundles hs
      exact ⟨_, h.take hi ⟨stored, hstored, hexisting⟩⟩
  | created _ _ _ _ hs => exact ⟨_, h.create hs⟩

theorem isNew (h : Growth initial steps replayer contents)
    (hl : replayer.created.length = replayer.plan.length) : ∀ step ∈ steps, step.isNew = true := by
  have hstored : (steps.filterMap Step.stored?).length = steps.length := by
    rw [← List.length_map Bundle.id, ← h.created, List.length_map, hl, h.plan, List.length_map]
  intro step hstep
  have hsome := List.filterMap_length_eq_length.mp hstored step hstep
  unfold Step.stored? at hsome
  split at hsome
  · rename_i hnew
    exact hnew
  · cases hsome

theorem kept (hi : ∀ bundle ∈ initial.bundles, bundle.id.isSome = true)
    (hd : request.dryRun = false) (cache : Cache) (start : Replayer) (ids : List BundleId) :
    Replayer.Kept supply request cache start ids fun replayer stock =>
      ∃ steps, Growth initial steps replayer stock.contents where
  keep := by
    rintro replayer stock current ⟨steps, h⟩ _ _ _
    exact ⟨steps, h.map current _⟩
  resolve := by
    rintro replayer next stock after current old ⟨steps, h⟩ _ _ _ _ hr
    exact h.resolve hi hd hr

end Growth

/-! ### The whole replay -/

namespace Request

/-- **The store grows by exactly the plan.**  When a replay succeeds that is no dry run, the entries
of its plan are those of some steps.  The stored bundles are the initial ones followed by one for
each step that is new, and these are, one by one, what the calls of the run to create a bundle made.
What any other step took over was stored before, and the ids that count as created are those of the
bundles that were added. -/
theorem replay_grows (request : Request) (supply : IdSupply) (schedule : List (Nat × StoreError))
    (recorded : Recorded) {replayed : Replayed}
    (hi : ∀ bundle ∈ recorded.store.contents.bundles, bundle.id.isSome = true)
    (hd : request.dryRun = false)
    (hr : (request.replay.run (Recorded.handle supply schedule) recorded).1 = .ok replayed) :
    let final := (request.replay.run (Recorded.handle supply schedule) recorded).2
    ∃ named replayer calls steps,
      (request.traverse.run (Recorded.handle supply schedule) recorded).1 = .ok (named, replayer) ∧
      replayed.plan = replayer.plan ∧
      Growth recorded.store.contents steps replayer final.store.contents ∧
      final.calls = recorded.calls ++ calls ∧
      steps.filterMap Step.stored? = (calls.filterMap Call.description?).mapIdx
        fun number description => recorded.store.contents.newBundle description
          (supply (recorded.store.allocated + number)) := by
  intro final
  have hserves := Recorded.handle_serves supply schedule
  obtain ⟨⟨named, replayer⟩, htraverse, hfinish⟩ := run_eq_finish hr
  have hnamed : (request.inIds recorded.stock.contents).dryRun = false := hd
  -- the traversal grows the store, and finishing leaves the bundles alone
  have hkept : ∀ cache ids, Replayer.Kept supply (request.inIds recorded.stock.contents) cache
      (.start (request.inIds recorded.stock.contents)) ids fun replayer stock =>
        ∃ steps, Growth recorded.store.contents steps replayer stock.contents :=
    fun cache ids => Growth.kept hi hnamed cache _ ids
  have hensures := (traverse_ensures request ⟨[], .start recorded.store.contents _⟩ hkept).run hserves
  obtain ⟨steps, hgrowth⟩ := hensures named replayer htraverse
  obtain ⟨hbundles, hplan⟩ := (finish_ensures (named, replayer)).run hserves
  rw [← hfinish] at hbundles hplan
  -- the calls of the whole run say which bundles were added
  obtain ⟨events, hleads, hcalls⟩ := Recorded.exists_leads supply schedule request.replay recorded
  have hnone : Reporting.failure?
      (request.replay.run (Recorded.handle supply schedule) recorded).1 = none := by
    rw [hr]
    rfl
  obtain ⟨_, hadded⟩ := hleads.grows ((replay_orderly request).of_leads hleads |>.2.2 hnone)
  have howner : final.store.contents.ownerId = recorded.store.contents.ownerId :=
    hleads.extends_contents.ownerId
  have hfinal : Growth recorded.store.contents steps replayer final.store.contents :=
    ⟨howner, hgrowth.plan, hbundles.trans hgrowth.bundles, hgrowth.created, hgrowth.made,
      hgrowth.taken⟩
  refine ⟨named, replayer, events.map Event.call, steps, htraverse, hplan replayed hr, hfinal,
    hcalls, ?_⟩
  rw [List.filterMap_map]
  exact List.append_cancel_left (hfinal.bundles.symm.trans hadded)

/-- The replay of the diamond grows its store by the three bundles that rest on the raw data: every step
is new. -/
theorem diamond_grows : ∃ replayed replayer steps,
    ((diamond (some "eval")).replay.run (Recorded.handle Stock.strokes [])
      (.ofStore Store.diamond)).1 = .ok replayed ∧
    replayed.plan = replayer.plan ∧
    Growth Store.diamond.contents steps replayer
      ((diamond (some "eval")).replay.run (Recorded.handle Stock.strokes [])
        (.ofStore Store.diamond)).2.store.contents ∧
    steps.map (fun step => step.entry.old.id) = [some "prep", some "train", some "eval"] ∧
    (∀ step ∈ steps, step.isNew = true) ∧ replayer.created = ["|", "||", "|||"] := by
  have hrun : ((diamond (some "eval")).replay.run (Recorded.handle Stock.strokes [])
      (.ofStore Store.diamond)).1.toOption.map (fun replayed =>
        replayed.plan.map fun entry => entry.old.id) =
          some [some "prep", some "train", some "eval"] := by decide
  have hids : ((diamond (some "eval")).replay.run (Recorded.handle Stock.strokes [])
      (.ofStore Store.diamond)).2.store.contents.bundles.map Bundle.id =
        Store.diamond.contents.bundles.map Bundle.id ++ ["|", "||", "|||"].map some := by decide
  obtain ⟨replayed, hr, hplanned⟩ := exists_ok_of_map hrun
  obtain ⟨_, replayer, _, steps, _, hplan, hgrowth, _⟩ :=
    replay_grows (diamond (some "eval")) Stock.strokes [] (.ofStore Store.diamond) (by decide) rfl hr
  have hcreated : replayer.created = ["|", "||", "|||"] := by
    rw [hgrowth.bundles, List.map_append, ← hgrowth.created] at hids
    exact (List.map_inj_right fun _ _ => Option.some.inj).mp (List.append_cancel_left hids)
  have hsteps : steps.map (fun step => step.entry.old.id) =
      [some "prep", some "train", some "eval"] := by
    rw [← hplanned, hplan, hgrowth.plan, List.map_map]
    rfl
  refine ⟨replayed, replayer, steps, hr, hplan, hgrowth, hsteps, hgrowth.isNew ?_, hcreated⟩
  rw [hcreated, ← hplan, ← List.length_map (fun entry : PlanEntry => entry.old.id), hplanned]
  rfl

end Request

end Provenance
