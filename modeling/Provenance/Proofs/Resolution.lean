import Provenance.Proofs.Calls
import Provenance.Replay.Replayer

/-!
# What resolving a bundle does

`Replayer.Resolution` lists the ways in which one bundle is resolved: it is not affected, it is only
planned, an equivalent bundle is taken over, or a new one is created.  `resolve_ensures` says that
there are no others, and that a failure leaves the stock alone.
-/

namespace Provenance

open Dialogue

namespace Replayer

/-- What the bundle that stands in for an old one is created from. -/
def description (replayer : Replayer) (request : Request) (id : BundleId) (old : Bundle) : Bundle :=
  old.counterpart id (replayer.standIns old.dependencies) request

@[simp] theorem description_dependencies (replayer : Replayer) (request : Request) (id : BundleId)
    (old : Bundle) :
    (replayer.description request id old).dependencies = replayer.standIns old.dependencies := rfl

/-- Where a new bundle goes when it is created. -/
def placement (request : Request) (id : BundleId) : CreatePlacement :=
  if request.shadow then .shadow id else .detached

theorem newIds_record (replayer : Replayer) (id : BundleId) (old new : Bundle) :
    (replayer.record id old new).plan.newIds = replayer.plan.newIds ++ new.id.toList := by
  simp only [record, Plan.newIds, List.filterMap_append]
  cases hnew : new.id <;> simp [hnew]

/-- The ways in which an old bundle is resolved, with the state and the stock after it. -/
inductive Resolution (supply : IdSupply) (request : Request) (replayer : Replayer) (id : BundleId)
    (old : Bundle) (before : Stock) : Replayer → Stock → Prop
  /-- It is not affected and stands in for itself. -/
  | unaffected (h : replayer.affects request id old = false) :
      Resolution supply request replayer id old before (replayer.map id (some id)) before
  /-- It is only planned. -/
  | planned (h : replayer.affects request id old = true) (hd : request.dryRun = true) :
      Resolution supply request replayer id old before
        (replayer.record id old (replayer.description request id old)) before
  /-- The latest equivalent bundle stands in for it. -/
  | reused {existing : Bundle} (h : replayer.affects request id old = true)
      (hd : request.dryRun = false) (hm : request.memoize = true)
      (hs : (before.contents.searchBundles old.command
        (replayer.description request id old).keys).getLast? = some existing) :
      Resolution supply request replayer id old before (replayer.record id old existing) before
  /-- A new bundle stands in for it. -/
  | created {made : Bundle} {after : Stock} (h : replayer.affects request id old = true)
      (hd : request.dryRun = false)
      (hm : request.memoize = true → before.contents.searchBundles old.command
        (replayer.description request id old).keys = [])
      (hk : old.kind.isDerived = true)
      (hs : before.Serves supply (.createBundle (replayer.description request id old)
        request.worksheet (placement request id)) (.ok made) after) :
      Resolution supply request replayer id old before
        ((replayer.record id old made).countCreated made) after

variable {supply : IdSupply} {stock : Stock} {request : Request}

/-- Resolving a bundle keeps it so that what was created is in the plan. -/
theorem Resolution.created_mem_newIds {replayer next : Replayer} {id : BundleId} {old : Bundle}
    {after : Stock} (hr : Resolution supply request replayer id old stock next after)
    (h : ∀ new ∈ replayer.created, new ∈ replayer.plan.newIds) :
    ∀ new ∈ next.created, new ∈ next.plan.newIds := by
  have hrecord : ∀ (made : Bundle), ∀ new ∈ replayer.created,
      new ∈ (replayer.record id old made).plan.newIds := by
    intro made new hnew
    rw [newIds_record]
    exact List.mem_append_left _ (h new hnew)
  cases hr with
  | unaffected => exact h
  | planned => exact hrecord _
  | reused => exact hrecord _
  | @created made =>
      intro new hnew
      rcases List.mem_append.mp hnew with hnew | hnew
      · exact hrecord made new hnew
      · change new ∈ (replayer.record id old made).plan.newIds
        rw [newIds_record]
        exact List.mem_append_right _ hnew

theorem equivalent_finds (command : Option String) (wanted : Bundle) :
    (equivalent request command wanted).Finds supply stock fun found =>
      (∀ existing, found = some existing → request.memoize = true ∧
        (stock.contents.searchBundles command wanted.keys).getLast? = some existing) ∧
      (found = none → request.dryRun = false → request.memoize = true →
        stock.contents.searchBundles command wanted.keys = []) := by
  unfold equivalent
  split
  · rename_i h
    obtain ⟨hm, _⟩ := h
    have hcall : (findEquivalent command wanted.keys).Finds supply stock
        (· = stock.contents.searchBundles command wanted.keys) :=
      finds_call fun found after hs => ⟨hs.searchBundles.1.symm, hs.searchBundles.2⟩
    refine hcall.bind (fun _ => finds_error) fun found hfound => finds_ok ?_
    subst hfound
    exact ⟨fun existing he => ⟨hm, he⟩, fun hn _ _ => List.getLast?_eq_none_iff.mp hn⟩
  · rename_i h
    refine finds_ok ⟨(fun _ he => nomatch he), ?_⟩
    intro _ hd hm
    exact absurd ⟨hm, by simpa using hd⟩ h

theorem create_ensures (id : BundleId) (wanted : Bundle) :
    (create request id wanted).Ensures supply stock fun result after =>
      (∀ error, result = .error error → after = stock) ∧
      ∀ made, result = .ok made → wanted.kind.isDerived = true ∧
        stock.Serves supply (.createBundle wanted request.worksheet (placement request id))
          (.ok made) after := by
  unfold create
  split
  · exact ⟨fun _ _ => rfl, fun _ hm => nomatch hm⟩
  · rename_i hk
    rw [ensures_bind, ensures_call]
    intro outcome after hs
    cases outcome with
    | error error => exact ⟨fun _ _ => hs, fun _ hm => nomatch hm⟩
    | ok made =>
        have hid : made.id.isSome = true := by
          rw [hs.createBundle.1]
          rfl
        simp only [hid, if_true]
        refine ⟨(fun _ hm => nomatch hm), ?_⟩
        intro found hf
        cases hf
        exact ⟨by simpa using hk, hs⟩

/-- **Resolving a bundle** goes one of these ways, or it fails and leaves the stock alone. -/
theorem resolve_ensures (replayer : Replayer) (request : Request) (id : BundleId) (old : Bundle) :
    (replayer.resolve request id old).Ensures supply stock fun result after =>
      (∀ error, result = .error error → after = stock) ∧
      ∀ next, result = .ok next → Resolution supply request replayer id old stock next after := by
  unfold resolve
  split
  · rename_i ha
    refine ⟨(fun _ hm => nomatch hm), ?_⟩
    intro next hn
    cases hn
    exact .unaffected (by simpa using ha)
  · rename_i ha
    have ha : replayer.affects request id old = true := by simpa using ha
    refine Ensures.bind (equivalent_finds old.command (replayer.description request id old)) ?_
    intro outcome after hr
    obtain ⟨rfl, he⟩ := hr
    cases outcome with
    | error error => exact ⟨fun _ _ => rfl, fun _ hm => nomatch hm⟩
    | ok found =>
        obtain ⟨hsome, hnone⟩ := he found rfl
        cases hd : request.dryRun with
        | true =>
            refine ⟨(fun _ hm => nomatch hm), ?_⟩
            intro next hn
            cases hn
            exact .planned ha hd
        | false =>
            cases found with
            | some existing =>
                obtain ⟨hm, hs⟩ := hsome existing rfl
                refine ⟨(fun _ hm => nomatch hm), ?_⟩
                intro next hn
                cases hn
                exact .reused ha hd hm hs
            | none =>
                refine (create_ensures id (replayer.description request id old)).bind ?_
                intro created after hc
                obtain ⟨herror, hok⟩ := hc
                cases created with
                | error error => exact ⟨fun _ _ => herror error rfl, fun _ hm => nomatch hm⟩
                | ok made =>
                    obtain ⟨hk, hs⟩ := hok made rfl
                    refine ⟨(fun _ hm => nomatch hm), ?_⟩
                    intro next hn
                    cases hn
                    exact .created ha hd (hnone rfl hd) hk hs

end Replayer

end Provenance
