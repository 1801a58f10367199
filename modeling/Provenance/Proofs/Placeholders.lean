import Provenance.Proofs.Classification
import Provenance.Proofs.Growth
import Provenance.Proofs.Resumption
import Provenance.Proofs.Storage

/-!
# Placeholders stay in dry runs

An old bundle that is only planned is mapped to a placeholder, and its children are planned with an
empty parent.  In a replay that is no dry run, every new bundle should have an id.  One that is created
does; one that is taken over has the id that it was stored with, and there may be none, for contents
that were read may hold bundles without id.

* `Replayer.Filled`: all that was planned and mapped has an id, and a new bundle has a parent wherever
  the old one has one.
* `Filled.resolve`: resolving a bundle keeps it like this if each stored bundle that may be taken over
  has an id.
* `Request.replay_leaves_no_placeholders`: the traversal of a replay is like this.
* `Request.unnamed_leaves_placeholder`: with a stored bundle that has no id, it need not be.
-/

namespace Provenance

open Dialogue

/-- An id is given, and it is not empty. -/
def Proper (id : Option BundleId) : Prop :=
  ∃ own, id = some own ∧ own ≠ ""

/-- Where the old dependency has a parent, the new one has one, too. -/
def Dependency.Fills (old new : Dependency) : Prop :=
  old.parentId ≠ "" → new.parentId ≠ ""

/-- The ids of stored bundles can be used to stand in for others: none is empty, and when equivalent
bundles may be taken over, none is missing. -/
structure Contents.Usable (contents : Contents) (request : Request) : Prop where
  nonempty : ∀ bundle ∈ contents.bundles, bundle.id ≠ some ""
  given : request.memoize = true → ∀ bundle ∈ contents.bundles, bundle.id.isSome = true

namespace Replayer

/-- By some steps a replay that is no dry run has come to a state in which nothing is left open: all
new bundles have ids, so has all that is mapped, and where an old bundle has a parent, so has the one
that was created for it. -/
structure Filled (initial : Contents) (steps : List Step) (replayer : Replayer)
    (contents : Contents) : Prop where
  plan : replayer.plan = steps.map Step.entry
  bundles : contents.bundles = initial.bundles ++ steps.filterMap Step.stored?
  new : ∀ step ∈ steps, Proper step.entry.new.id
  /-- Only what had no id itself is mapped to an empty one. -/
  target : ∀ id new, replayer.substitutions.get? id = some new →
    ∃ own, new = some own ∧ (own = "" → id = "")
  parents : ∀ step ∈ steps, step.isNew = true →
    List.Forall₂ Dependency.Fills step.entry.old.dependencies step.entry.new.dependencies

namespace Filled

variable {supply : IdSupply} {request : Request} {initial contents : Contents} {steps : List Step}
  {replayer next : Replayer} {stock after : Stock} {id : BundleId} {old made : Bundle} {step : Step}

theorem start (hn : request.Named contents) (hu : contents.Usable request) :
    Filled contents [] (start request) contents where
  plan := rfl
  bundles := (List.append_nil _).symm
  new := List.forall_mem_nil _
  target id new h := by
    rw [get?_start, Option.map_eq_some_iff] at h
    obtain ⟨pair, hpair, rfl⟩ := h
    -- a new input is the id of a stored bundle
    have hinput := hn.newInputs pair.2 (List.of_mem_zip (List.mem_of_find?_eq_some hpair)).2
    obtain ⟨bundle, hb, hown⟩ := List.mem_filterMap.mp hinput
    refine ⟨pair.2, rfl, fun hempty => absurd ?_ (hu.nonempty bundle hb)⟩
    rw [hown, hempty]
  parents := List.forall_mem_nil _

theorem target_add (h : Filled initial steps replayer contents) {new : Option BundleId}
    (hnew : ∃ own, new = some own ∧ (own = "" → id = "")) :
    ∀ other found, (replayer.substitutions.add id new).get? other = some found →
      ∃ own, found = some own ∧ (own = "" → other = "") := by
  intro other found hfound
  rw [Register.get?_add] at hfound
  split at hfound
  · rename_i hother
    obtain ⟨rfl, _⟩ := hother
    cases hfound
    exact hnew
  · exact h.target other found hfound

theorem map (h : Filled initial steps replayer contents) (id : BundleId) :
    Filled initial steps (replayer.map id (some id)) contents :=
  ⟨h.plan, h.bundles, h.new, h.target_add ⟨id, rfl, fun hempty => hempty⟩, h.parents⟩

theorem usable (h : Filled initial steps replayer contents) (hu : initial.Usable request) :
    contents.Usable request := by
  have hstored : ∀ bundle ∈ contents.bundles, bundle ∈ initial.bundles ∨ Proper bundle.id := by
    intro bundle hb
    rw [h.bundles] at hb
    refine (List.mem_append.mp hb).imp_right fun hb => ?_
    obtain ⟨step, hstep, hstored⟩ := List.mem_filterMap.mp hb
    unfold Step.stored? at hstored
    split at hstored <;> cases hstored
    exact h.new step hstep
  refine ⟨fun bundle hb => ?_, fun hm bundle hb => ?_⟩
  · rcases hstored bundle hb with hi | ⟨own, hown, hne⟩
    · exact hu.nonempty bundle hi
    · rw [hown]
      exact fun hempty => hne (Option.some.inj hempty)
  · rcases hstored bundle hb with hi | ⟨own, hown, _⟩
    · exact hu.given hm bundle hi
    · rw [hown]
      rfl

theorem record (h : Filled initial steps replayer contents) (hnew : Proper step.entry.new.id)
    (hparents : step.isNew = true →
      List.Forall₂ Dependency.Fills step.entry.old.dependencies step.entry.new.dependencies)
    (hbundles : after.contents.bundles = contents.bundles ++ step.stored?.toList)
    (hs : next.substitutions = replayer.substitutions.add id step.entry.new.id)
    (hp : next.plan = replayer.plan ++ [step.entry]) :
    Filled initial (steps ++ [step]) next after.contents := by
  refine ⟨?_, ?_, ?_, ?_, ?_⟩
  · rw [hp, h.plan, List.map_append]
    rfl
  · rw [hbundles, h.bundles, List.filterMap_append, List.append_assoc]
    cases hstored : step.stored? <;> simp [hstored]
  · intro other ho
    rcases List.mem_append.mp ho with ho | ho
    · exact h.new other ho
    · exact List.mem_singleton.mp ho ▸ hnew
  · obtain ⟨own, hown, hne⟩ := hnew
    rw [hs]
    exact h.target_add ⟨own, hown, fun hempty => absurd hempty hne⟩
  · intro other ho
    rcases List.mem_append.mp ho with ho | ho
    · exact h.parents other ho
    · exact List.mem_singleton.mp ho ▸ hparents

theorem standIn_ne (h : Filled initial steps replayer contents) {parent : BundleId}
    (hp : parent ≠ "") : replayer.standIn parent ≠ "" := by
  unfold standIn
  split
  · rename_i new hget
    obtain ⟨own, hown, hempty⟩ := h.target parent _ hget
    cases hown
    exact fun hnew => hp (hempty hnew)
  · rename_i hget
    obtain ⟨own, hown, _⟩ := h.target parent _ hget
    cases hown
  · exact hp

theorem fills_newBundle (h : Filled initial steps replayer contents) (request : Request)
    (id : BundleId) (old : Bundle) (new : BundleId) :
    List.Forall₂ Dependency.Fills old.dependencies
      (contents.newBundle (replayer.description request id old) new).dependencies := by
  rw [Contents.newBundle_dependencies, description_dependencies, standIns, List.map_map,
    List.forall₂_map_right_iff, List.forall₂_same]
  exact fun dependency _ => h.standIn_ne

/-- **Resolving a bundle** leaves no placeholder when this is no dry run. -/
theorem resolve (h : Filled initial steps replayer stock.contents) (hd : request.dryRun = false)
    (hu : initial.Usable request) (hsupply : ∀ count, supply count ≠ "")
    (hr : Resolution supply request replayer id old stock next after) :
    ∃ steps', Filled initial steps' next after.contents := by
  cases hr with
  | unaffected => exact ⟨steps, h.map id⟩
  | planned _ hdry =>
      rw [hd] at hdry
      cases hdry
  | @reused existing _ _ hm hs =>
      obtain ⟨stored, hbundle, _, rfl⟩ := Contents.exists_of_getLast?_searchBundles hs
      obtain ⟨own, hown⟩ := Option.isSome_iff_exists.mp ((h.usable hu).given hm stored hbundle)
      have hne : own ≠ "" := by
        rintro rfl
        exact (h.usable hu).nonempty stored hbundle hown
      refine ⟨steps ++ [⟨⟨old, stored.explained⟩, false⟩], ?_⟩
      exact h.record ⟨own, hown, hne⟩ (fun hnew => nomatch hnew) (List.append_nil _).symm rfl rfl
  | created _ _ _ _ hs =>
      obtain ⟨rfl, hbundles, _⟩ := hs.createBundle
      refine ⟨steps ++ [⟨⟨old, (stock.contents.newBundle (replayer.description request id old)
        (supply stock.allocated)).explained⟩, true⟩], ?_⟩
      exact h.record ⟨_, rfl, hsupply _⟩ (fun _ => h.fills_newBundle request id old _) hbundles rfl rfl

theorem kept (hd : request.dryRun = false) (hu : initial.Usable request)
    (hsupply : ∀ count, supply count ≠ "") (cache : Cache) (start : Replayer)
    (ids : List BundleId) :
    Kept supply request cache start ids fun replayer stock =>
      ∃ steps, Filled initial steps replayer stock.contents where
  keep := by
    rintro replayer stock current ⟨steps, h⟩ _ _ _
    exact ⟨steps, h.map current⟩
  resolve := by
    rintro replayer next stock after current old ⟨steps, h⟩ _ _ _ _ hr
    exact h.resolve hd hu hsupply hr

end Filled

end Replayer

/-! ### The whole replay -/

namespace Request

/-- **Placeholders stay in dry runs**, if the stored bundles can be used to stand in for others.  When
a replay succeeds that is no dry run, all entries of its plan have an id, everything is mapped to an
id, and the bundles that were added have a parent wherever those have one for which they were
created. -/
theorem replay_leaves_no_placeholders (request : Request) (supply : IdSupply)
    (schedule : List (Nat × StoreError)) (recorded : Recorded) {replayed : Replayed}
    (hd : request.dryRun = false) (hu : recorded.store.contents.Usable request)
    (hsupply : ∀ count, supply count ≠ "")
    (hr : (request.replay.run (Recorded.handle supply schedule) recorded).1 = .ok replayed) :
    ∃ named replayer steps,
      (request.traverse.run (Recorded.handle supply schedule) recorded).1 = .ok (named, replayer) ∧
      replayed.plan = replayer.plan ∧
      replayer.Filled recorded.store.contents steps
        (request.replay.run (Recorded.handle supply schedule) recorded).2.store.contents := by
  have hserves := Recorded.handle_serves supply schedule
  obtain ⟨⟨named, replayer⟩, htraverse, hfinish⟩ := run_eq_finish hr
  have hreal : (request.inIds recorded.stock.contents).dryRun = false := hd
  have husable : recorded.stock.contents.Usable (request.inIds recorded.stock.contents) :=
    ⟨hu.nonempty, hu.given⟩
  have hkept : ∀ cache ids, Replayer.Kept supply (request.inIds recorded.stock.contents) cache
      (.start (request.inIds recorded.stock.contents)) ids fun replayer stock =>
        ∃ steps, replayer.Filled recorded.stock.contents steps stock.contents :=
    fun cache ids => Replayer.Filled.kept hreal husable hsupply cache _ ids
  have hensures := (traverse_ensures_of_named request
    (fun hnamed => ⟨[], Replayer.Filled.start hnamed husable⟩) fun cache ids _ => hkept cache ids).run
      hserves
  obtain ⟨steps, hfilled⟩ := hensures named replayer htraverse
  obtain ⟨hbundles, hplan⟩ := (finish_ensures (named, replayer)).run hserves
  rw [← hfinish] at hbundles hplan
  refine ⟨named, replayer, steps, htraverse, hplan replayed hr, ?_⟩
  exact ⟨hfilled.plan, hbundles.trans hfilled.bundles, hfilled.new, hfilled.target, hfilled.parents⟩

/-- When the chain is replayed, all that is planned has an id. -/
theorem chain_leaves_no_placeholders : ∃ replayed,
    ((chain (some "eval")).replay.run (Recorded.handle Stock.strokes [])
      (.ofStore Store.chain)).1 = .ok replayed ∧
    (replayed.plan.map fun entry => entry.old.id) = [some "prep", some "train", some "eval"] ∧
    ∀ entry ∈ replayed.plan, Proper entry.new.id := by
  have hplan : ((chain (some "eval")).replay.run (Recorded.handle Stock.strokes [])
      (.ofStore Store.chain)).1.toOption.map
        (fun replayed => replayed.plan.map fun entry => entry.old.id) =
      some [some "prep", some "train", some "eval"] := by
    decide +kernel
  have husable : Store.chain.contents.Usable (chain (some "eval")) :=
    ⟨by decide, fun _ => by decide⟩
  obtain ⟨replayed, hr, hids⟩ := exists_ok_of_map hplan
  obtain ⟨_, replayer, steps, _, hsame, hfilled⟩ := replay_leaves_no_placeholders
    (chain (some "eval")) Stock.strokes [] (.ofStore Store.chain) rfl husable
    Stock.strokes_ne_empty hr
  refine ⟨replayed, hr, hids, fun entry he => ?_⟩
  rw [hsame, hfilled.plan] at he
  obtain ⟨step, hstep, rfl⟩ := List.mem_map.mp he
  exact hfilled.new step hstep

end Request

/-- A store in which the run that was made on the fixed data already has no id. -/
def Store.unnamed : Store :=
  .ofBundles [.mounting .dataset "raw" none [], .mounting .dataset "fix" none [],
    .mounting .run "prep" (some "prep") ["raw"], .mounting .run "eval" (some "eval") ["prep"],
    { Bundle.mounting .run "done" (some "prep") ["fix"] with id := none }]

namespace Request

/-- A store that can be read may hold a bundle without id.  It is taken over in a replay that is no dry
run, and what is created next has no parent where the old bundle has one. -/
theorem unnamed_leaves_placeholder :
    Contents.load? Store.unnamed.contents.save = some Store.unnamed.contents ∧
      (chain (some "eval")).dryRun = false ∧
      ((chain (some "eval")).replay.run (Recorded.handle Stock.strokes [])
        (.ofStore Store.unnamed)).1.toOption.map (fun replayed => replayed.plan.map fun entry =>
          (entry.old.id, entry.old.parents, entry.new.id, entry.new.parents)) =
        some [(some "prep", ["raw"], none, ["fix"]), (some "eval", ["prep"], some "|", [""])] := by
  refine ⟨Contents.load?_save_of_plain (by decide), rfl, ?_⟩
  decide +kernel

end Request

end Provenance
