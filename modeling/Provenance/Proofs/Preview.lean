import Provenance.Proofs.Itinerary
import Provenance.Proofs.Phases

/-!
# What a dry run foresees

A dry run settles the same bundles as a real one, in the same order, but only plans what the real one
creates.  `Plan.Previews` says how its plan goes with the real one: entry by entry they tell the same of
the new bundles, except for their ids, and for the ids of parents that are new themselves, which a dry
run leaves empty.

* `Replayer.settleAll_eq_foreseeAll`: settling asks nothing of the store in a dry run.
* `Replayer.Previews.settle`: planning a bundle keeps step with creating it.
* `Request.replay_previews`: a dry run succeeds where the real run does, with a plan that previews the
  real one, and it never does more than fetch bundles.
-/

namespace Provenance

open Dialogue

theorem Plan.entryFor?_concat (plan : Plan) {entry : PlanEntry} {id : BundleId}
    (hold : entry.old.id = some id) (other : BundleId) :
    Plan.entryFor? (plan ++ [entry]) other =
      (plan.entryFor? other).or (if other = id then some entry else none) := by
  rw [entryFor?, List.find?_append, entryFor?, List.find?_singleton, hold]
  by_cases ho : other = id
  · simp [ho]
  · simp [ho, Ne.symm ho]

/-! ### Plans that go together -/

/-- A planned dependency previews the one that is created for it, for a parent of the old bundle: the
parent is left empty if one of the earlier entries of the real plan has a new bundle for it. -/
structure Dependency.Previews (earlier : Plan) (parent : BundleId) (planned real : Dependency) :
    Prop where
  parentPath : planned.parentPath = real.parentPath
  childPath : planned.childPath = real.childPath
  parentId : match earlier.entryFor? parent with
    | some entry => planned.parentId = "" ∧ entry.new.id = some real.parentId
    | none => planned.parentId = real.parentId

/-- A planned entry previews a real one that comes after earlier entries. -/
structure PlanEntry.Previews (earlier : Plan) (planned real : PlanEntry) : Prop where
  old : planned.old = real.old
  id : planned.new.id = none
  kind : planned.new.kind = real.new.kind
  command : planned.new.command = real.new.command
  isAnonymous : planned.new.isAnonymous = real.new.isAnonymous
  metadata : planned.new.metadata = real.new.metadata
  planned_length : planned.new.dependencies.length = real.old.dependencies.length
  real_length : real.new.dependencies.length = real.old.dependencies.length
  dependencies : ∀ (position : Nat) (parent : BundleId) (foreseen made : Dependency),
    real.old.parents[position]? = some parent →
    planned.new.dependencies[position]? = some foreseen →
    real.new.dependencies[position]? = some made → foreseen.Previews earlier parent made

/-- A plan previews a real one: they have the same length, and each entry previews the one at its
position. -/
structure Plan.Previews (planned real : Plan) : Prop where
  length : planned.length = real.length
  entries : ∀ (position : Nat) (entry other : PlanEntry), planned[position]? = some entry →
    real[position]? = some other → entry.Previews (real.take position) other

namespace Plan.Previews

theorem nil : Previews [] [] := by
  refine ⟨rfl, fun position entry other h => ?_⟩
  simp at h

theorem snoc {planned real : Plan} {entry other : PlanEntry} (h : planned.Previews real)
    (he : entry.Previews real other) : Previews (planned ++ [entry]) (real ++ [other]) := by
  refine ⟨by simp [h.length], ?_⟩
  intro position first second hfirst hsecond
  rcases Nat.lt_or_ge position real.length with hlt | hge
  · rw [List.getElem?_append_left (h.length ▸ hlt)] at hfirst
    rw [List.getElem?_append_left hlt] at hsecond
    rw [List.take_append_of_le_length (Nat.le_of_lt hlt)]
    exact h.entries position first second hfirst hsecond
  · have hlast : position = real.length := by
      have := (List.getElem?_eq_some_iff.mp hsecond).1
      simp at this
      omega
    subst hlast
    rw [← h.length, List.getElem?_concat_length] at hfirst
    rw [List.getElem?_concat_length] at hsecond
    cases hfirst
    cases hsecond
    rw [List.take_left]
    exact he

end Plan.Previews

/-! ### What is foreseen -/

/-- The dry run of a request; in a dry run it does not matter whether equivalent bundles are wanted. -/
def Request.preview (request : Request) (memoize : Bool) : Request :=
  { request with dryRun := true, memoize }

namespace Replayer

variable {supply : IdSupply} {stock before after : Stock} {request : Request} {cache : Cache}
  {replayer planned real next : Replayer} {id : BundleId}

/-- What dealing with one bundle comes to in a dry run. -/
def foresee (request : Request) (cache : Cache) (replayer : Replayer) (id : BundleId) : Replayer :=
  match cache.get? id with
  | none => replayer.map id (some id)
  | some old =>
    if replayer.affects request id old then
      replayer.record id old (replayer.description request id old)
    else replayer.map id (some id)

/-- What dealing with some bundles, one after another, comes to in a dry run. -/
def foreseeAll (request : Request) (cache : Cache) (replayer : Replayer) (ids : List BundleId) :
    Replayer :=
  ids.foldl (foresee request cache) replayer

variable {old : Bundle}

theorem foresee_of_none (hc : cache.get? id = none) :
    replayer.foresee request cache id = replayer.map id (some id) := by
  rw [foresee, hc]

theorem foresee_of_not_affects (hc : cache.get? id = some old)
    (ha : replayer.affects request id old = false) :
    replayer.foresee request cache id = replayer.map id (some id) := by
  rw [foresee, hc]
  exact if_neg (by simp [ha])

theorem foresee_of_affects (hc : cache.get? id = some old)
    (ha : replayer.affects request id old = true) :
    replayer.foresee request cache id =
      replayer.record id old (replayer.description request id old) := by
  rw [foresee, hc]
  exact if_pos ha

theorem settle_eq_foresee (hd : request.dryRun = true) (cache : Cache) (replayer : Replayer)
    (id : BundleId) :
    replayer.settle request cache id = pure (.ok (replayer.foresee request cache id)) := by
  unfold settle foresee
  cases cache.get? id with
  | none => rfl
  | some old =>
      have hnone : equivalent request old.command (replayer.description request id old) =
          pure (.ok none) := if_neg (by simp [hd])
      unfold description at hnone
      cases ha : replayer.affects request id old <;> simp [resolve, ha, hd, hnone, description]

/-- Nothing is asked of the store when bundles are settled in a dry run. -/
theorem settleAll_eq_foreseeAll (hd : request.dryRun = true) (cache : Cache) (replayer : Replayer)
    (ids : List BundleId) :
    replayer.settleAll request cache ids =
      pure (.ok (), replayer.foreseeAll request cache ids) := by
  induction ids generalizing replayer with
  | nil => rfl
  | cons id ids ih =>
      rw [settleAll, settle_eq_foresee hd, pure_bind]
      exact ih _

/-! ### In step with the real run -/

/-- The state of a dry run goes with that of a real one: what the real one has created a new bundle for
has a placeholder, and anything else is mapped alike. -/
structure Previews (planned real : Replayer) : Prop where
  downstream : planned.downstream = real.downstream
  plan : planned.plan.Previews real.plan
  mapped : ∀ id, match real.plan.entryFor? id with
    | some entry => ∃ new, entry.new.id = some new ∧ planned.substitutions.get? id = some none ∧
        real.substitutions.get? id = some (some new)
    | none => planned.substitutions.get? id = real.substitutions.get? id

namespace Previews

theorem start (request : Request) : (start request).Previews (start request) :=
  ⟨rfl, .nil, fun _ => rfl⟩

theorem affects_eq (h : planned.Previews real) (request : Request) (id : BundleId) (old : Bundle) :
    planned.affects request id old = real.affects request id old := by
  simp only [affects, h.downstream]

theorem unmapped (h : planned.Previews real) (hid : ¬ real.substitutions.contains id = true) :
    real.plan.entryFor? id = none ∧ real.substitutions.get? id = none ∧
      planned.substitutions.get? id = none := by
  have hreal : real.substitutions.get? id = none := by simpa [Register.contains] using hid
  have hmapped := h.mapped id
  cases hentry : real.plan.entryFor? id with
  | some entry =>
      rw [hentry] at hmapped
      obtain ⟨_, _, _, hget⟩ := hmapped
      rw [hreal] at hget
      cases hget
  | none =>
      rw [hentry, hreal] at hmapped
      exact ⟨rfl, hreal, hmapped⟩

theorem map (h : planned.Previews real) (hid : ¬ real.substitutions.contains id = true)
    (new : Option BundleId) : (planned.map id new).Previews (real.map id new) := by
  obtain ⟨hentry, hreal, hplanned⟩ := h.unmapped hid
  refine ⟨h.downstream, h.plan, fun other => ?_⟩
  have hmapped := h.mapped other
  simp only [map_substitutions, Register.get?_add, hreal, hplanned, and_true]
  by_cases ho : other = id
  · subst ho
    simp only [Replayer.map, hentry, if_true]
  · simp only [ho, if_false]
    exact hmapped

theorem record (h : planned.Previews real) (hid : ¬ real.substitutions.contains id = true)
    {old wanted made : Bundle} {new : BundleId} (hold : old.id = some id) (hwanted : wanted.id = none)
    (hmade : made.id = some new)
    (he : PlanEntry.Previews real.plan ⟨old, wanted⟩ ⟨old, made⟩) :
    (planned.record id old wanted).Previews ((real.record id old made).countCreated made) := by
  obtain ⟨hentry, hreal, hplanned⟩ := h.unmapped hid
  refine ⟨congrArg (id :: ·) h.downstream, h.plan.snoc he, fun other => ?_⟩
  have hmapped := h.mapped other
  have hplan : ((real.record id old made).countCreated made).plan.entryFor? other =
      (real.plan.entryFor? other).or (if other = id then some ⟨old, made⟩ else none) :=
    real.plan.entryFor?_concat hold other
  rw [hplan]
  simp only [countCreated, Replayer.record, Register.get?_add, hreal, hplanned, and_true, hwanted,
    hmade]
  by_cases ho : other = id
  · subst ho
    simp only [hentry, if_true, Option.none_or]
    exact ⟨new, hmade, by simp⟩
  · simp only [ho, if_false, Option.or_none]
    exact hmapped

/-- A placeholder stands in for a parent that the real run has created a new bundle for. -/
theorem standIn (h : planned.Previews real) (parent : BundleId) :
    match real.plan.entryFor? parent with
    | some entry => planned.standIn parent = "" ∧ entry.new.id = some (real.standIn parent)
    | none => planned.standIn parent = real.standIn parent := by
  have hmapped := h.mapped parent
  cases hentry : real.plan.entryFor? parent with
  | some entry =>
      rw [hentry] at hmapped
      obtain ⟨new, hnew, hplanned, hreal⟩ := hmapped
      simp only [Replayer.standIn, hplanned, hreal]
      exact ⟨trivial, hnew⟩
  | none =>
      rw [hentry] at hmapped
      have hget : planned.substitutions.get? parent = real.substitutions.get? parent := hmapped
      simp only [Replayer.standIn, hget]

/-- What is planned for a bundle previews what is created for it. -/
theorem description (h : planned.Previews real) (request : Request) (id : BundleId) (old : Bundle)
    (contents : Contents) (new : BundleId) :
    PlanEntry.Previews real.plan ⟨old, planned.description request id old⟩
      ⟨old, (contents.newBundle (real.description request id old) new).explained⟩ := by
  refine ⟨rfl, rfl, rfl, rfl, rfl, rfl, ?_, ?_, ?_⟩
  · simp [standIns]
  · simp [Bundle.explained, Contents.newBundle_dependencies, standIns]
  · intro position parent foreseen made hparent hforeseen hmade
    obtain ⟨dependency, hdependency, rfl⟩ : ∃ dependency,
        old.dependencies[position]? = some dependency ∧ dependency.parentId = parent := by
      simpa [Bundle.parents] using hparent
    obtain rfl : { dependency with parentId := planned.standIn dependency.parentId } = foreseen := by
      simpa [standIns, hdependency] using hforeseen
    obtain rfl : { dependency with parentId := real.standIn dependency.parentId, childId := new } =
        made := by
      simpa [Bundle.explained, Contents.newBundle_dependencies, standIns, hdependency] using hmade
    exact ⟨rfl, rfl, h.standIn dependency.parentId⟩

/-- **Planning a bundle keeps step** with dealing with it in a real run that takes no equivalent bundles
over. -/
theorem settle (h : planned.Previews real) (hk : cache.Keyed) (hd : request.dryRun = false)
    (hm : request.memoize = false) (hid : ¬ real.substitutions.contains id = true)
    (hs : Settlement supply request cache real id before next after) :
    (planned.foresee request cache id).Previews next := by
  cases hs with
  | keep hc =>
      rw [foresee_of_none hc]
      exact h.map hid _
  | @resolve old _ _ hc hr =>
      cases hr with
      | unaffected ha =>
          rw [foresee_of_not_affects hc ((h.affects_eq request id old).trans ha)]
          exact h.map hid _
      | planned _ hdry =>
          rw [hd] at hdry
          cases hdry
      | reused _ _ hmemoize =>
          rw [hm] at hmemoize
          cases hmemoize
      | created ha _ _ _ hserves =>
          obtain ⟨rfl, _⟩ := hserves.createBundle
          rw [foresee_of_affects hc ((h.affects_eq request id old).trans ha)]
          exact h.record hid (hk id old hc) rfl rfl (h.description request id old _ _)

end Previews

theorem settleAll_previews (hk : cache.Keyed) (hd : request.dryRun = false)
    (hm : request.memoize = false) (ids : List BundleId) (h : planned.Previews real)
    (hu : real.Unsettled ids) :
    (real.settleAll request cache ids).Ensures supply stock fun result _ => result.1 = .ok () →
      (planned.foreseeAll request cache ids).Previews result.2 := by
  induction ids generalizing planned real stock with
  | nil => exact fun _ => h
  | cons id ids ih =>
      refine (settle_ensures request cache real id).bind ?_
      rintro outcome after ⟨_, hok⟩
      cases outcome with
      | error error => exact nofun
      | ok next =>
          have hsettled := hok next rfl
          have hid := hu.not_contains id List.mem_cons_self
          obtain ⟨new, hnew⟩ := hsettled.exists_add
          exact ih (h.settle hk hd hm hid hsettled) (hu.tail hnew)

end Replayer

/-! ### The whole dry run -/

namespace Request

variable {supply : IdSupply} {stock after : Stock} {request named : Request}

theorem Admits.fetches {call : Call} (h : request.Admits call) (hd : request.dryRun = true) :
    call.operation = .fetchBundles ∨ call.operation = .fetchBundle := by
  have hwet : ¬ request.dryRun = false := by simp [hd]
  cases call with
  | fetchBundles => exact .inl rfl
  | fetchBundle => exact .inr rfl
  | fetchWorksheetsByBundle => exact absurd h.1 hwet
  | fetchWorksheet => exact absurd h.1 hwet
  | createBundle => exact absurd h.1 hwet
  | createWorksheetItem => exact absurd h.1 hwet
  | searchBundles => exact absurd h.1 hwet

theorem resolved_preview (request : Request) (memoize : Bool) :
    (request.preview memoize).resolved =
      (fun outcome => outcome.map (·.preview memoize)) <$> request.resolved := by
  unfold resolved
  rw [map_bind]
  congr 1
  funext oldOutput
  cases oldOutput with
  | error error => rfl
  | ok oldOutput =>
      dsimp only
      rw [map_bind]
      congr 1
      funext oldInputs
      cases oldInputs with
      | error error => rfl
      | ok oldInputs =>
          dsimp only
          rw [map_bind]
          congr 1
          funext newInputs
          cases newInputs <;> rfl

theorem Surveyed.preview {cache : Cache} {closure : List BundleId}
    (h : request.Surveyed supply stock named cache closure) (memoize : Bool) :
    (request.preview memoize).Surveyed supply stock (named.preview memoize) cache closure := by
  refine ⟨h.valid, ?_, h.collected⟩
  rw [resolved_preview, map_eq_pure_bind, run_bind, h.resolved]
  rfl

/-- A dry run comes to what it foresees for the bundles on its itinerary. -/
theorem Surveyed.run_dry {cache : Cache} {closure ids : List BundleId}
    (h : request.Surveyed supply stock named cache closure) (hd : request.dryRun = true)
    (hids : (Replayer.start named).substituteAll named cache (named.targets closure) =
      (Replayer.start named).settleAll named cache ids) :
    request.replay.run (Stock.handle supply) stock =
      (.ok ⟨((Replayer.start named).foreseeAll named cache ids).plan, none⟩, stock) := by
  have hdry : named.dryRun = true := by rw [h.named_eq]; exact hd
  rw [Replayer.settleAll_eq_foreseeAll hdry] at hids
  have hsubstitute : ((Replayer.start named).substituteAll named cache (named.targets closure)).run
      (Stock.handle supply) stock =
        ((.ok (), (Replayer.start named).foreseeAll named cache ids), stock) := by
    rw [hids]
    rfl
  rw [run_replay (run_traverse h.valid h.resolved h.collected hsubstitute),
    finish_eq_pure (.inl hdry)]
  rfl

theorem run_preview (hd : request.dryRun = false) (hm : request.memoize = false) (memoize : Bool)
    {replayed : Replayed}
    (hr : (request.replay.run (Stock.handle supply) stock).1 = .ok replayed) :
    ∃ previewed, ((request.preview memoize).replay.run (Stock.handle supply) stock).1 =
      .ok previewed ∧ previewed.plan.Previews replayed.plan := by
  obtain ⟨⟨named, real⟩, htraverse, hfinish⟩ := run_eq_finish hr
  have hrun : request.traverse.run (Stock.handle supply) stock =
      (.ok (named, real), (request.traverse.run (Stock.handle supply) stock).2) :=
    Prod.ext htraverse rfl
  obtain ⟨cache, closure, hsurveyed, hsubstitute⟩ := Surveyed.of_run_traverse hrun
  obtain ⟨ids, hids, hitinerary⟩ :=
    Replayer.exists_itinerary cache (.start named) (named.targets closure)
  have hdry := (hsurveyed.preview memoize).run_dry rfl
    (hitinerary (named.preview memoize) (.start named) fun _ => Iff.rfl)
  rw [hitinerary named (.start named) fun _ => Iff.rfl] at hsubstitute
  -- both runs settle the same bundles
  have hnamed := hsurveyed.named_eq
  have hpreviews := Ensures.of_run (Replayer.settleAll_previews hsurveyed.mirrors.keyed
    (by rw [hnamed]; exact hd) (by rw [hnamed]; exact hm) ids (.start named) hids) hsubstitute rfl
  have hplan : replayed.plan = real.plan := by
    rw [hfinish] at hr
    exact (Ensures.of_run (finish_ensures (named, real)) (Prod.ext hr rfl)).2 replayed rfl
  refine ⟨_, congrArg Prod.fst hdry, ?_⟩
  rw [hplan]
  exact hpreviews.plan

/-- **A dry run previews the real run.**  Where the real run succeeds that takes no equivalent bundles
over, the dry run on the same store succeeds, and its plan previews the real one.  Whether it succeeds or
not, a dry run only fetches bundles. -/
theorem replay_previews (request : Request) (supply : IdSupply) :
    (∀ (recorded : Recorded) (replayed : Replayed) (memoize : Bool),
      recorded.store.failures = [] → request.dryRun = false → request.memoize = false →
      (request.replay.run (Recorded.handle supply []) recorded).1 = .ok replayed →
        ∃ previewed, ((request.preview memoize).replay.run (Recorded.handle supply []) recorded).1 =
          .ok previewed ∧ previewed.plan.Previews replayed.plan) ∧
      ∀ (schedule : List (Nat × StoreError)) (recorded : Recorded) (memoize : Bool), ∃ calls,
        ((request.preview memoize).replay.run (Recorded.handle supply schedule) recorded).2.calls =
          recorded.calls ++ calls ∧
        ∀ call ∈ calls, call.operation = .fetchBundles ∨ call.operation = .fetchBundle := by
  refine ⟨?_, ?_⟩
  · intro recorded replayed memoize hf hd hm hr
    rw [(Recorded.run_eq supply _ hf).1] at hr
    rw [(Recorded.run_eq supply _ hf).1]
    exact run_preview hd hm memoize hr
  · intro schedule recorded memoize
    obtain ⟨events, hleads, hcalls⟩ :=
      Recorded.exists_leads supply schedule (request.preview memoize).replay recorded
    refine ⟨events.map Event.call, hcalls, fun call hcall => ?_⟩
    obtain ⟨event, he, rfl⟩ := List.mem_map.mp hcall
    exact (((replay_orderly _).of_leads hleads).2.1 event he).fetches rfl

/-- The dry run of the replay of the diamond leaves the parents empty that the real run creates. -/
theorem diamond_previews :
    let real := (diamond (some "eval")).replay.run (Recorded.handle Stock.strokes [])
      (.ofStore Store.diamond)
    let dry := ((diamond (some "eval")).preview true).replay.run (Recorded.handle Stock.strokes [])
      (.ofStore Store.diamond)
    (∃ replayed previewed, real.1 = .ok replayed ∧ dry.1 = .ok previewed ∧
      previewed.plan.Previews replayed.plan) ∧
    real.1.toOption.map (fun replayed => replayed.plan.map fun entry => entry.new.parents) =
      some [["fix"], ["|", "fix"], ["||"]] ∧
    dry.1.toOption.map (fun previewed => previewed.plan.map fun entry => entry.new.parents) =
      some [["fix"], ["", "fix"], [""]] := by
  have hok : ((diamond (some "eval")).replay.run (Recorded.handle Stock.strokes [])
      (.ofStore Store.diamond)).1.isOk = true := by decide +kernel
  refine ⟨?_, by decide +kernel, by decide +kernel⟩
  obtain ⟨replayed, hr⟩ := exists_ok_of_isOk hok
  obtain ⟨previewed, hdry, hpreviews⟩ := (replay_previews (diamond (some "eval")) Stock.strokes).1
    (.ofStore Store.diamond) replayed true rfl rfl rfl hr
  exact ⟨replayed, previewed, hr, hdry, hpreviews⟩

end Request

end Provenance
