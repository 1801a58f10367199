import Provenance.Proofs.Layout
import Provenance.Proofs.Preview

/-!
# What a real run may refuse

A dry run plans new bundles without asking whether they can be made.  Only derived bundles can, so a real
run is refused when it comes to the first old bundle of the plan that is not derived.  If the target
exists, nothing else can go wrong: what the dry run has planned is created and laid out.

* `Replayer.run_settleAll`: settling bundles in a real run succeeds, or ends at the first planned bundle
  that is not derived.
* `Request.replay_keeps_promise`: this decides whether a replay succeeds whose dry run did.
* `Request.copied_refuses`: a data set that depends on an old input is planned and refused.
-/

namespace Provenance

open Dialogue

/-- The first old bundle of a plan for which none can be created. -/
def Plan.refused? (plan : Plan) : Option PlanEntry :=
  plan.find? fun entry => ¬ entry.old.kind.isDerived

namespace Plan

/-- How a real run ends whose dry run has a plan: it succeeds unless it is refused. -/
def Promises {α : Type} (plan : Plan) (outcome : Except ReplayError α) : Prop :=
  match plan.refused? with
  | none => ∃ result, outcome = .ok result
  | some entry => ∃ id, entry.old.id = some id ∧ outcome = .error (.notDerived id)

variable {α : Type} {plan : Plan}

theorem refused?_append (plan more : Plan) :
    refused? (plan ++ more) = plan.refused?.or more.refused? :=
  List.find?_append

theorem promises_ok (h : plan.refused? = none) (result : α) :
    plan.Promises (.ok result : Except ReplayError α) := by
  rw [Promises, h]
  exact ⟨result, rfl⟩

theorem promises_error {entry : PlanEntry} {id : BundleId} (h : plan.refused? = some entry)
    (hold : entry.old.id = some id) :
    plan.Promises (.error (.notDerived id) : Except ReplayError α) := by
  rw [Promises, h]
  exact ⟨id, hold, rfl⟩

theorem Promises.exists_ok {outcome : Except ReplayError α} (hp : plan.Promises outcome)
    (h : plan.refused? = none) : ∃ result, outcome = .ok result := by
  rwa [Promises, h] at hp

theorem Promises.exists_error {outcome : Except ReplayError α} {entry : PlanEntry}
    (hp : plan.Promises outcome) (h : plan.refused? = some entry) :
    ∃ id, entry.old.id = some id ∧ outcome = .error (.notDerived id) := by
  rwa [Promises, h] at hp

end Plan

namespace Stock

theorem handle_createBundle (supply : IdSupply) {stock : Stock} {description : Bundle}
    {target : WorksheetId} (hk : description.kind.isDerived = true)
    (ht : (stock.contents.worksheet? target).isSome = true) (placement : CreatePlacement) :
    ∃ made after, handle supply (.createBundle description target placement) stock =
      (.ok made, after) ∧ made.id.isSome = true := by
  obtain ⟨worksheet, hworksheet⟩ := Option.isSome_iff_exists.mp ht
  have hcontents : (Store.ofStock stock).contents = stock.contents := rfl
  simp [handle, Store.answer, Store.createBundle, hk, hcontents, hworksheet, Bundle.explained,
    Bundle.withId]

end Stock

namespace Replayer

variable {supply : IdSupply} {stock after : Stock} {request : Request} {cache : Cache}
  {replayer planned real next : Replayer} {id : BundleId} {old : Bundle}

theorem run_create (supply : IdSupply) (id : BundleId) {wanted : Bundle}
    (hk : wanted.kind.isDerived = true)
    (ht : (stock.contents.worksheet? request.worksheet).isSome = true) :
    ∃ made after, (create request id wanted).run (Stock.handle supply) stock = (.ok made, after) := by
  obtain ⟨made, after, hmade, hid⟩ :=
    Stock.handle_createBundle supply hk ht (placement request id)
  refine ⟨made, after, ?_⟩
  have hcall : Stock.handle supply (.createBundle wanted request.worksheet
      (if request.shadow then .shadow id else .detached)) stock = (.ok made, after) := hmade
  rw [create, if_neg (by simp [hk])]
  dsimp only
  rw [run_bind, run_call, hcall]
  simp only [hid, if_true]
  rfl

theorem create_of_not_isDerived {wanted : Bundle} (hk : wanted.kind.isDerived = false) :
    create request id wanted = pure (.error (.notDerived id)) := by
  simp [create, hk]

/-- A real run that takes no equivalent bundles over creates a new one for each affected bundle. -/
theorem settle_of_affects (hd : request.dryRun = false) (hm : request.memoize = false)
    (hc : cache.get? id = some old) (ha : replayer.affects request id old = true) :
    replayer.settle request cache id = (do
      match ← create request id (replayer.description request id old) with
      | .error error => return .error error
      | .ok made => return .ok ((replayer.record id old made).countCreated made)) := by
  have hnone : equivalent request old.command (replayer.description request id old) =
      pure (.ok none) := if_neg (by simp [hm])
  unfold description at hnone
  simp only [settle, hc, resolve, ha, hd, hnone, not_true, if_false, pure_bind, Bool.false_eq_true]
  rfl

theorem foresee_plan (request : Request) (cache : Cache) (replayer : Replayer) (id : BundleId) :
    ∃ more, (replayer.foresee request cache id).plan = replayer.plan ++ more := by
  cases hc : cache.get? id with
  | none => exact ⟨[], by rw [foresee_of_none hc]; exact (List.append_nil _).symm⟩
  | some old =>
      cases ha : replayer.affects request id old with
      | false => exact ⟨[], by rw [foresee_of_not_affects hc ha]; exact (List.append_nil _).symm⟩
      | true => exact ⟨_, by rw [foresee_of_affects hc ha]; rfl⟩

theorem foreseeAll_plan (request : Request) (cache : Cache) (replayer : Replayer)
    (ids : List BundleId) :
    ∃ more, (replayer.foreseeAll request cache ids).plan = replayer.plan ++ more := by
  induction ids generalizing replayer with
  | nil => exact ⟨[], (List.append_nil _).symm⟩
  | cons id ids ih =>
      obtain ⟨first, hfirst⟩ := foresee_plan request cache replayer id
      obtain ⟨rest, hrest⟩ := ih (replayer.foresee request cache id)
      refine ⟨first ++ rest, ?_⟩
      rw [← List.append_assoc, ← hfirst]
      exact hrest

/-- Settling a bundle in a real run succeeds unless it is planned and not derived. -/
theorem run_settle (supply : IdSupply) (hk : cache.Keyed) (hd : request.dryRun = false)
    (hm : request.memoize = false) (h : planned.Previews real)
    (ht : (stock.contents.worksheet? request.worksheet).isSome = true)
    (hp : planned.plan.refused? = none) (id : BundleId) :
    (∃ next after, (real.settle request cache id).run (Stock.handle supply) stock =
        (.ok next, after) ∧ (planned.foresee request cache id).plan.refused? = none) ∨
      ∃ entry, (real.settle request cache id).run (Stock.handle supply) stock =
          (.error (.notDerived id), stock) ∧
        (planned.foresee request cache id).plan.refused? = some entry ∧ entry.old.id = some id := by
  cases hc : cache.get? id with
  | none =>
      refine .inl ⟨real.map id (some id), stock, ?_, ?_⟩
      · rw [settle, hc]
        rfl
      · rw [foresee_of_none hc]
        exact hp
  | some old =>
      cases ha : real.affects request id old with
      | false =>
          refine .inl ⟨real.map id (some id), stock, ?_, ?_⟩
          · simp [settle, hc, resolve, ha]
          · rw [foresee_of_not_affects hc ((h.affects_eq request id old).trans ha)]
            exact hp
      | true =>
          have hplan : (planned.foresee request cache id).plan.refused? =
              Plan.refused? [⟨old, planned.description request id old⟩] := by
            rw [foresee_of_affects hc ((h.affects_eq request id old).trans ha)]
            simp only [record, Plan.refused?_append, hp, Option.none_or]
          rw [settle_of_affects hd hm hc ha, run_bind]
          cases hderived : old.kind.isDerived with
          | true =>
              have hwanted : (real.description request id old).kind.isDerived = true := hderived
              obtain ⟨made, after, hmade⟩ := run_create supply id hwanted ht
              refine .inl ⟨(real.record id old made).countCreated made, after, ?_, ?_⟩
              · rw [hmade]
                rfl
              · rw [hplan]
                simp [Plan.refused?, hderived]
          | false =>
              have hwanted : (real.description request id old).kind.isDerived = false := hderived
              refine .inr ⟨⟨old, planned.description request id old⟩, ?_, ?_, hk id old hc⟩
              · rw [create_of_not_isDerived hwanted]
                rfl
              · rw [hplan]
                simp [Plan.refused?, hderived]

/-- **Settling bundles in a real run** succeeds if the bundles that the dry run plans are derived, and
otherwise ends at the first that is not. -/
theorem run_settleAll (supply : IdSupply) (hk : cache.Keyed) (hd : request.dryRun = false)
    (hm : request.memoize = false) (ids : List BundleId) (h : planned.Previews real)
    (hu : real.Unsettled ids) (ht : (stock.contents.worksheet? request.worksheet).isSome = true)
    (hp : planned.plan.refused? = none) :
    (planned.foreseeAll request cache ids).plan.Promises
      ((real.settleAll request cache ids).run (Stock.handle supply) stock).1.1 := by
  induction ids generalizing planned real stock with
  | nil => exact Plan.promises_ok hp ()
  | cons id ids ih =>
      have hforesee : planned.foreseeAll request cache (id :: ids) =
          (planned.foresee request cache id).foreseeAll request cache ids := rfl
      rw [settleAll, run_bind, hforesee]
      rcases run_settle supply hk hd hm h ht hp id with
        ⟨next, after, hsettle, hnext⟩ | ⟨entry, hsettle, hentry, hold⟩
      · rw [hsettle]
        have hsettled := (Ensures.of_run (settle_ensures request cache real id) hsettle).2 next rfl
        have hid := hu.not_contains id List.mem_cons_self
        obtain ⟨new, hnew⟩ := hsettled.exists_add
        obtain ⟨_, hleads⟩ := exists_leads_of_run hsettle
        exact ih (h.settle hk hd hm hid hsettled) (hu.tail hnew)
          (hleads.extends_contents.isSome_worksheet?_iff.mpr ht) hnext
      · rw [hsettle]
        obtain ⟨more, hmore⟩ := foreseeAll_plan request cache (planned.foresee request cache id) ids
        rw [hmore]
        exact Plan.promises_error (by rw [Plan.refused?_append, hentry, Option.some_or]) hold

/-! ### What is laid out -/

/-- What was created is in the plan, and what is in the plan is stored. -/
structure Grounded (replayer : Replayer) (contents : Contents) : Prop where
  created : ∀ id ∈ replayer.created, id ∈ replayer.plan.newIds
  stored : ∀ id ∈ replayer.plan.newIds, id ∈ contents.ids

namespace Grounded

theorem start (request : Request) (contents : Contents) : (start request).Grounded contents :=
  ⟨List.forall_mem_nil _, List.forall_mem_nil _⟩

theorem stored_record (h : replayer.Grounded stock.contents)
    (hb : ∀ id ∈ stock.contents.ids, id ∈ after.contents.ids) {new : Bundle}
    (hnew : ∀ own, new.id = some own → own ∈ after.contents.ids) (id : BundleId) (old : Bundle) :
    ∀ own ∈ (replayer.record id old new).plan.newIds, own ∈ after.contents.ids := by
  intro own hown
  rw [newIds_record, List.mem_append, Option.mem_toList] at hown
  rcases hown with hown | hown
  · exact hb own (h.stored own hown)
  · exact hnew own hown

theorem resolve (h : replayer.Grounded stock.contents)
    (hr : Resolution supply request replayer id old stock next after) :
    next.Grounded after.contents := by
  refine ⟨hr.created_mem_newIds h.created, ?_⟩
  cases hr with
  | unaffected => exact h.stored
  | planned =>
      refine h.stored_record (fun _ hid => hid) ?_ id old
      rintro own ⟨⟩
  | reused _ _ _ hs =>
      refine h.stored_record (fun _ hid => hid) ?_ id old
      intro own hown
      obtain ⟨stored, hstored, _, rfl⟩ := Contents.exists_of_getLast?_searchBundles hs
      exact Contents.mem_ids.mpr ⟨stored, hstored, hown⟩
  | created _ _ _ _ hserves =>
      have hids := hserves.createBundle_ids
      obtain ⟨rfl, _⟩ := hserves.createBundle
      refine h.stored_record (fun _ hid => hids ▸ List.mem_append_left _ hid) ?_ id old
      rintro own ⟨⟩
      rw [hids]
      exact List.mem_append_right _ List.mem_cons_self

end Grounded

theorem settleAll_grounded (request : Request) (cache : Cache) (ids : List BundleId)
    (h : replayer.Grounded stock.contents) :
    (replayer.settleAll request cache ids).Ensures supply stock fun result after =>
      result.2.Grounded after.contents := by
  have hkept : ∀ (replayer next : Replayer) (id : BundleId) (before after : Stock),
      replayer.Grounded before.contents →
        Settlement supply request cache replayer id before next after →
          next.Grounded after.contents := by
    intro replayer next id before after hgrounded hsettled
    cases hsettled with
    | keep => exact ⟨hgrounded.created, hgrounded.stored⟩
    | resolve _ hr => exact hgrounded.resolve hr
  exact settleAll_ensures hkept ids h

end Replayer

/-! ### The whole replay -/

namespace Request

variable {supply : IdSupply} {stock : Stock} {request named : Request}

/-- What is found out about a dry run is found out about the real one. -/
theorem Surveyed.of_preview {memoize : Bool} {dry : Request} {cache : Cache}
    {closure : List BundleId}
    (h : (request.preview memoize).Surveyed supply stock dry cache closure) :
    ∃ named, dry = named.preview memoize ∧ request.Surveyed supply stock named cache closure := by
  have hresolved := h.resolved
  rw [resolved_preview, map_eq_pure_bind, run_bind] at hresolved
  cases hrun : request.resolved.run (Stock.handle supply) stock with
  | mk outcome after =>
      rw [hrun] at hresolved
      cases outcome with
      | error error => cases hresolved
      | ok named =>
          obtain ⟨rfl, rfl⟩ : named.preview memoize = dry ∧ after = stock :=
            ⟨Except.ok.inj (congrArg Prod.fst hresolved), congrArg Prod.snd hresolved⟩
          exact ⟨named, rfl, h.valid, hrun, h.collected⟩

/-- Finishing succeeds if everything that is planned is stored and the target exists. -/
theorem run_finish_ok {replayer : Replayer} (hg : replayer.Grounded stock.contents)
    (ht : (stock.contents.worksheet? named.worksheet).isSome = true) :
    ∃ replayed, ((finish (named, replayer)).run (Stock.handle supply) stock).1 = .ok replayed := by
  have htarget : named.shadow = false → replayer.plan.newIds ≠ [] →
      (stock.contents.worksheet? named.worksheet).isSome = true := fun _ _ => ht
  obtain ⟨placement, hlayout⟩ := run_layOut hg.created hg.stored htarget
  exact ⟨_, run_finish hlayout⟩

theorem run_promises (hd : request.dryRun = false) (hm : request.memoize = false)
    (ht : (stock.contents.worksheet? request.worksheet).isSome = true) {memoize : Bool}
    {previewed : Replayed}
    (hr : ((request.preview memoize).replay.run (Stock.handle supply) stock).1 = .ok previewed) :
    previewed.plan.Promises (request.replay.run (Stock.handle supply) stock).1 := by
  obtain ⟨⟨dry, planned⟩, htraverse, _⟩ := run_eq_finish hr
  obtain ⟨cache, closure, hdry, _⟩ := Surveyed.of_run_traverse (Prod.ext htraverse rfl)
  obtain ⟨named, rfl, hsurveyed⟩ := hdry.of_preview
  obtain ⟨ids, hids, hitinerary⟩ :=
    Replayer.exists_itinerary cache (.start named) (named.targets closure)
  rw [hdry.run_dry rfl (hitinerary (named.preview memoize) (.start named) fun _ => Iff.rfl)] at hr
  cases hr
  have hnamed := hsurveyed.named_eq
  have htarget : (stock.contents.worksheet? named.worksheet).isSome = true := by rw [hnamed]; exact ht
  -- the real run settles the bundles that the dry run has planned
  cases hrun : ((Replayer.start named).settleAll named cache ids).run (Stock.handle supply) stock with
  | mk settled after =>
      have hpromises := Replayer.run_settleAll supply hsurveyed.mirrors.keyed
        (by rw [hnamed]; exact hd) (by rw [hnamed]; exact hm) ids (.start named) hids htarget rfl
      rw [hrun] at hpromises
      rw [← hitinerary named (.start named) fun _ => Iff.rfl] at hrun
      have hreal := run_traverse hsurveyed.valid hsurveyed.resolved hsurveyed.collected hrun
      -- what is foreseen is the same whether the request is for a dry run or not
      change Plan.Promises ((Replayer.start named).foreseeAll named cache ids).plan _
      obtain ⟨outcome, last⟩ := settled
      cases hrefused : ((Replayer.start named).foreseeAll named cache ids).plan.refused? with
      | none =>
          obtain ⟨_, rfl⟩ := hpromises.exists_ok hrefused
          rw [hitinerary named (.start named) fun _ => Iff.rfl] at hrun
          have hgrounded := Ensures.of_run (Replayer.settleAll_grounded named cache ids
            (.start named stock.contents)) hrun
          obtain ⟨_, hleads⟩ := exists_leads_of_run hrun
          obtain ⟨replayed, hreplayed⟩ := run_finish_ok hgrounded
            (hleads.extends_contents.isSome_worksheet?_iff.mpr htarget)
          rw [run_replay hreal, hreplayed]
          exact Plan.promises_ok hrefused replayed
      | some entry =>
          obtain ⟨id, hold, rfl⟩ := hpromises.exists_error hrefused
          rw [run_replay_error hreal]
          exact Plan.promises_error hrefused hold

/-- **What a dry run promises.**  If the dry run of a replay succeeds and its target exists, the real
run, without equivalent bundles, succeeds where every planned bundle is derived; otherwise it ends with
the first that is not. -/
theorem replay_keeps_promise (request : Request) (supply : IdSupply) (recorded : Recorded)
    (hf : recorded.store.failures = []) (hd : request.dryRun = false)
    (hm : request.memoize = false)
    (ht : (recorded.store.contents.worksheet? request.worksheet).isSome = true) (memoize : Bool)
    (previewed : Replayed)
    (hr : ((request.preview memoize).replay.run (Recorded.handle supply []) recorded).1 =
      .ok previewed) :
    previewed.plan.Promises (request.replay.run (Recorded.handle supply []) recorded).1 := by
  rw [(Recorded.run_eq supply _ hf).1] at hr ⊢
  exact run_promises hd hm ht hr

/-- In the diamond everything that is planned is derived, so it is replayed as its dry run promises. -/
theorem diamond_keeps_promise : ∃ previewed replayed,
    (((diamond (some "eval")).preview false).replay.run (Recorded.handle Stock.strokes [])
      (.ofStore Store.diamond)).1 = .ok previewed ∧
    (previewed.plan.map fun entry => entry.old.id) = [some "prep", some "train", some "eval"] ∧
    ((diamond (some "eval")).replay.run (Recorded.handle Stock.strokes [])
      (.ofStore Store.diamond)).1 = .ok replayed := by
  have hplanned : ((((diamond (some "eval")).preview false).replay.run
      (Recorded.handle Stock.strokes []) (.ofStore Store.diamond)).1.toOption.map fun previewed =>
        (previewed.plan.map fun entry => entry.old.id, previewed.plan.refused?.isNone)) =
      some ([some "prep", some "train", some "eval"], true) := by decide +kernel
  cases hr : (((diamond (some "eval")).preview false).replay.run (Recorded.handle Stock.strokes [])
      (.ofStore Store.diamond)).1 with
  | error error =>
      rw [hr] at hplanned
      cases hplanned
  | ok previewed =>
      rw [hr] at hplanned
      obtain ⟨hold, hderived⟩ := Prod.mk.inj (Option.some.inj hplanned)
      have hpromises := replay_keeps_promise (diamond (some "eval")) Stock.strokes
        (.ofStore Store.diamond) rfl rfl rfl rfl false previewed hr
      obtain ⟨replayed, hreplayed⟩ := hpromises.exists_ok (Option.isNone_iff_eq_none.mp hderived)
      exact ⟨previewed, replayed, rfl, hold, hreplayed⟩

end Request

/-- A store with data, and a copy that is a data set again. -/
def Store.copied : Store :=
  .ofBundles [.mounting .dataset "raw" none [], .mounting .dataset "fix" none [],
    .mounting .dataset "copy" none ["raw"]]

namespace Request

/-- The dry run plans a new copy from the fixed data, which the real run refuses to create. -/
theorem copied_refuses :
    Store.copied.failures = [] ∧ (diamond (some "copy")).dryRun = false ∧
      (diamond (some "copy")).memoize = false ∧
      (Store.copied.contents.worksheet? (diamond (some "copy")).worksheet).isSome = true ∧
      (∀ memoize, (((diamond (some "copy")).preview memoize).replay.run
        (Recorded.handle Stock.strokes []) (.ofStore Store.copied)).1.isOk = true) ∧
      ((diamond (some "copy")).replay.run (Recorded.handle Stock.strokes [])
        (.ofStore Store.copied)).1 = .error (.notDerived "copy") := by
  refine ⟨rfl, rfl, rfl, rfl, ?_, ?_⟩
  · decide +kernel
  · rfl

end Request

end Provenance
