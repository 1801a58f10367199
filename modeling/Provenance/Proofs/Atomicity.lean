import Provenance.Proofs.Expansion
import Provenance.Proofs.Soundness

/-!
# Operations that fail

A call fails because a failure is queued for it, or because it is refused: `Contents.Refuses` says
which calls are refused, and with which failure.  `Contents.RefusesFreezing` says so of freezing,
which is no call.

* `Store.handle_of_queued`, `Store.handle_of_answer` and `Store.handle_of_refusal` are the three ways
  in which a call ends.
* `Store.operations_atomic`: whatever fails leaves the store as it was, but that a call is counted and
  the failure that was queued for it is used up.
-/

namespace Provenance

/-- How often an operation was called. -/
def CallCounts.of (counts : CallCounts) : Operation → Nat
  | .fetchBundles => counts.fetchBundles
  | .fetchBundle => counts.fetchBundle
  | .fetchWorksheetsByBundle => counts.fetchWorksheetsByBundle
  | .fetchWorksheet => counts.fetchWorksheet
  | .createBundle => counts.createBundle
  | .createWorksheetItem => counts.createWorksheetItem
  | .searchBundles => counts.searchBundles

theorem CallCounts.of_bump (counts : CallCounts) (operation other : Operation) :
    (counts.bump operation).of other = counts.of other + if other = operation then 1 else 0 := by
  cases operation <;> cases other <;> rfl

/-! ### Refusals -/

namespace Contents

/-- A call is refused, whether or not a failure is queued for it.  Where two things are wrong with a
call, the first one of these is what it fails with. -/
inductive Refuses (contents : Contents) : Call → StoreError → Prop
  /-- No bundle goes by a spec; the first such spec is named. -/
  | unknownSpec {specs : List String} {depth : Option Nat} {spec : String}
      (h : (specs.find? fun spec => ¬ contents.Known spec) = some spec) :
      Refuses contents (.fetchBundles specs depth) (.noMatch spec)
  /-- No bundle has the id. -/
  | unknownBundle {id : BundleId} (h : id ∉ contents.ids) :
      Refuses contents (.fetchBundle id) (.noBundle id)
  /-- No worksheet has the id. -/
  | unknownWorksheet {id : WorksheetId} (h : ∀ worksheet ∈ contents.worksheets, worksheet.id ≠ id) :
      Refuses contents (.fetchWorksheet id) (.noWorksheet id)
  /-- A dataset is not made from a description. -/
  | dataset {description : Bundle} {target : WorksheetId} {placement : CreatePlacement}
      (h : description.kind = .dataset) :
      Refuses contents (.createBundle description target placement)
        (.usage "Cannot create a dataset bundle from a description")
  /-- There is no worksheet for a new bundle. -/
  | noTarget {description : Bundle} {target : WorksheetId} {placement : CreatePlacement}
      (hk : description.kind ≠ .dataset)
      (h : ∀ worksheet ∈ contents.worksheets, worksheet.id ≠ target) :
      Refuses contents (.createBundle description target placement) (.noWorksheet target)
  /-- There is no bundle for an item. -/
  | itemOfNone {id : BundleId} {target : WorksheetId} (h : id ∉ contents.ids) :
      Refuses contents (.createWorksheetItem (.bundle id) target) (.noBundle id)
  /-- There is no worksheet for an item. -/
  | itemForNone {item : WorksheetItem} {target : WorksheetId}
      (hi : ∀ id, item = .bundle id → id ∈ contents.ids)
      (h : ∀ worksheet ∈ contents.worksheets, worksheet.id ≠ target) :
      Refuses contents (.createWorksheetItem item target) (.noWorksheet target)

/-- It is refused to freeze what is under an id. -/
inductive RefusesFreezing (contents : Contents) (id : BundleId) : StoreError → Prop
  /-- No bundle has the id. -/
  | unknown (h : id ∉ contents.ids) : RefusesFreezing contents id (.noBundle id)
  /-- The bundle is frozen. -/
  | frozen {bundle : Bundle} (hb : contents.bundle? id = some bundle)
      (h : bundle.frozen.isSome = true) :
      RefusesFreezing contents id (.ofGuard (.frozen id bundle.name))
  /-- The bundle is not frozen and did not come to rest. -/
  | unsettled {bundle : Bundle} (hb : contents.bundle? id = some bundle)
      (hn : bundle.frozen = none) (h : bundle.state.isFinal = false) :
      RefusesFreezing contents id (.ofGuard (.notFinal id bundle.name))

variable {contents : Contents} {specs : List String} {seen : List BundleId} {error : StoreError}

theorem exists_resolveAll (h : ∀ spec ∈ specs, contents.Known spec) (seen : List BundleId) :
    ∃ found, contents.resolveAll seen specs = .ok found := by
  induction specs generalizing seen with
  | nil => exact ⟨[], rfl⟩
  | cons spec specs ih =>
      obtain ⟨hspec, hspecs⟩ := List.forall_mem_cons.mp h
      rw [resolveAll]
      cases hr : contents.resolve? spec with
      | none => exact absurd hspec (resolve?_eq_none_iff.mp hr)
      | some bundle =>
          dsimp only
          split
          · exact ih hspecs seen
          · rename_i id _
            split
            · exact ih hspecs seen
            · obtain ⟨found, hfound⟩ := ih hspecs (id :: seen)
              exact ⟨bundle :: found, by rw [hfound]; rfl⟩

theorem resolveAll_eq_error_iff : contents.resolveAll seen specs = .error error ↔
    ∃ spec, (specs.find? fun spec => ¬ contents.Known spec) = some spec ∧
      error = .noMatch spec := by
  constructor
  · intro h
    cases hfind : specs.find? fun spec => ¬ contents.Known spec with
    | some spec =>
        rw [resolveAll_error hfind] at h
        cases h
        exact ⟨spec, rfl, rfl⟩
    | none =>
        have hknown : ∀ spec ∈ specs, contents.Known spec := by
          intro spec hspec
          simpa using List.find?_eq_none.mp hfind spec hspec
        obtain ⟨found, hfound⟩ := exists_resolveAll hknown seen
        rw [hfound] at h
        cases h
  · rintro ⟨spec, hspec, rfl⟩
    exact resolveAll_error hspec

theorem worksheet?_eq_none_iff {id : WorksheetId} :
    contents.worksheet? id = none ↔ ∀ worksheet ∈ contents.worksheets, worksheet.id ≠ id := by
  simp [worksheet?, List.find?_eq_none]

theorem fetchBundle_eq_error_iff {id : BundleId} :
    contents.fetchBundle id = .error error ↔ id ∉ contents.ids ∧ error = .noBundle id := by
  rw [← bundle?_eq_none_iff, fetchBundle]
  cases contents.bundle? id <;> simp [eq_comm]

theorem fetchWorksheet_eq_error_iff {id : WorksheetId} :
    contents.fetchWorksheet id = .error error ↔
      (∀ worksheet ∈ contents.worksheets, worksheet.id ≠ id) ∧ error = .noWorksheet id := by
  rw [← worksheet?_eq_none_iff, fetchWorksheet]
  cases contents.worksheet? id <;> simp [eq_comm]

end Contents

namespace Bundle

variable {bundle : Bundle} {refusal : GuardError}

theorem checkNotFrozen_eq_error_iff : bundle.checkNotFrozen = .error refusal ↔
    bundle.frozen.isSome = true ∧ refusal = .frozen (bundle.id.getD "") bundle.name := by
  unfold checkNotFrozen
  split <;> simp [*, eq_comm]

theorem checkFreezable_eq_error_iff : bundle.checkFreezable = .error refusal ↔
    bundle.state.isFinal = false ∧ refusal = .notFinal (bundle.id.getD "") bundle.name := by
  unfold checkFreezable
  split <;> simp [*, eq_comm]

end Bundle

theorem BundleKind.not_isDerived_iff {kind : BundleKind} :
    ¬ kind.isDerived = true ↔ kind = .dataset := by
  cases kind <;> simp [isDerived]

theorem map_eq_error_iff {α β : Type} {outcome : Except StoreError α} {f : α → β}
    {error : StoreError} : outcome.map f = .error error ↔ outcome = .error error := by
  cases outcome <;> simp [Except.map]

namespace Store

variable {supply : IdSupply} {store next : Store} {call : Call} {error : StoreError} {id : BundleId}
  {now : Timestamp}

theorem createBundle_eq_error_iff {description : Bundle} {target : WorksheetId}
    {placement : CreatePlacement} :
    store.createBundle supply description target placement = .error error ↔
      store.contents.Refuses (.createBundle description target placement) error := by
  unfold createBundle
  split
  · rename_i hk
    have hkind : description.kind = .dataset := BundleKind.not_isDerived_iff.mp hk
    rw [hkind]
    constructor
    · rintro ⟨⟩
      exact .dataset hkind
    · intro h
      cases h with
      | dataset => rfl
      | noTarget hother => exact absurd hkind hother
  · rename_i hk
    have hkind : description.kind ≠ .dataset := fun h => hk (BundleKind.not_isDerived_iff.mpr h)
    split
    · rename_i hw
      constructor
      · rintro ⟨⟩
        exact .noTarget hkind (Contents.worksheet?_eq_none_iff.mp hw)
      · intro h
        cases h with
        | dataset hdataset => exact absurd hdataset hkind
        | noTarget => rfl
    · rename_i worksheet hw
      refine ⟨nofun, fun h => ?_⟩
      cases h with
      | dataset hdataset => exact absurd hdataset hkind
      | noTarget _ hnone =>
          rw [Contents.worksheet?_eq_none_iff.mpr hnone] at hw
          cases hw

theorem missing_eq_some_iff {contents : Contents} {item : WorksheetItem} :
    item.bundleId?.filter (fun id => (contents.bundle? id).isNone) = some id ↔
      item = .bundle id ∧ id ∉ contents.ids := by
  rw [Option.filter_eq_some_iff, Option.isNone_iff_eq_none, Contents.bundle?_eq_none_iff]
  cases item <;> simp [WorksheetItem.bundleId?]

theorem createWorksheetItem_eq_error_iff {item : WorksheetItem} {target : WorksheetId} :
    store.createWorksheetItem item target = .error error ↔
      store.contents.Refuses (.createWorksheetItem item target) error := by
  unfold createWorksheetItem
  split
  · rename_i id hid
    obtain ⟨rfl, hnone⟩ := missing_eq_some_iff.mp hid
    constructor
    · rintro ⟨⟩
      exact .itemOfNone hnone
    · intro h
      cases h with
      | itemOfNone => rfl
      | itemForNone hi => exact absurd (hi id rfl) hnone
  · rename_i hstored
    have hi : ∀ id, item = .bundle id → id ∈ store.contents.ids := by
      intro id hitem
      by_contra hnone
      rw [missing_eq_some_iff.mpr ⟨hitem, hnone⟩] at hstored
      cases hstored
    split
    · rename_i hw
      constructor
      · rintro ⟨⟩
        exact .itemForNone hi (Contents.worksheet?_eq_none_iff.mp hw)
      · intro h
        cases h with
        | itemOfNone hnone => exact absurd (hi _ rfl) hnone
        | itemForNone => rfl
    · rename_i worksheet hw
      refine ⟨nofun, fun h => ?_⟩
      cases h with
      | itemOfNone hnone => exact absurd (hi _ rfl) hnone
      | itemForNone _ hnone =>
          rw [Contents.worksheet?_eq_none_iff.mpr hnone] at hw
          cases hw

/-- **A call is answered unless it is refused.** -/
theorem answer_eq_error_iff :
    store.answer supply call = .error error ↔ store.contents.Refuses call error := by
  cases call with
  | fetchBundles specs depth =>
      simp only [answer, Contents.fetchBundles, map_eq_error_iff, Contents.resolveAll_eq_error_iff]
      constructor
      · rintro ⟨spec, hspec, rfl⟩
        exact .unknownSpec hspec
      · rintro ⟨hspec⟩
        exact ⟨_, hspec, rfl⟩
  | fetchBundle id =>
      simp only [answer, map_eq_error_iff, Contents.fetchBundle_eq_error_iff]
      constructor
      · rintro ⟨hnone, rfl⟩
        exact .unknownBundle hnone
      · rintro ⟨⟩
        exact ⟨‹_›, rfl⟩
  | fetchWorksheetsByBundle id => constructor <;> intro h <;> cases h
  | fetchWorksheet id =>
      simp only [answer, map_eq_error_iff, Contents.fetchWorksheet_eq_error_iff]
      constructor
      · rintro ⟨hnone, rfl⟩
        exact .unknownWorksheet hnone
      · rintro ⟨⟩
        exact ⟨‹_›, rfl⟩
  | createBundle => exact createBundle_eq_error_iff
  | createWorksheetItem => exact createWorksheetItem_eq_error_iff
  | searchBundles command keys => constructor <;> intro h <;> cases h

/-- **A bundle is frozen unless this is refused.** -/
theorem freeze_eq_error_iff :
    store.freeze id now = .error error ↔ store.contents.RefusesFreezing id error := by
  constructor
  · intro h
    unfold freeze at h
    split at h
    · rename_i hb
      cases h
      exact .unknown (Contents.bundle?_eq_none_iff.mp hb)
    · rename_i bundle hb
      have hid := (Contents.mem_of_bundle? hb).2
      split at h
      · rename_i refusal hrefused
        obtain ⟨hfrozen, rfl⟩ := Bundle.checkNotFrozen_eq_error_iff.mp hrefused
        cases h
        rw [hid]
        exact .frozen hb hfrozen
      · rename_i hfree
        have hfree : bundle.frozen = none := by simpa [Bundle.checkNotFrozen] using hfree
        split at h
        · rename_i refusal hrefused
          obtain ⟨hfinal, rfl⟩ := Bundle.checkFreezable_eq_error_iff.mp hrefused
          cases h
          rw [hid]
          exact .unsettled hb hfree hfinal
        · cases h
  · intro h
    unfold freeze
    cases h with
    | unknown hnone => rw [Contents.bundle?_eq_none_iff.mpr hnone]
    | frozen hb hfrozen =>
        have hid := (Contents.mem_of_bundle? hb).2
        simp [hb, hid, Bundle.checkNotFrozen, hfrozen]
    | unsettled hb hfree hfinal =>
        have hid := (Contents.mem_of_bundle? hb).2
        simp [hb, hid, Bundle.checkNotFrozen, hfree, Bundle.checkFreezable, hfinal]

/-! ### How a call ends -/

/-- A queued failure is all that a call meets. -/
theorem handle_of_queued {failures : List StoreError} (h : store.failures = error :: failures)
    (supply : IdSupply) (call : Call) :
    handle supply call store =
      (.error error, { store with counts := store.counts.bump call.operation, failures }) := by
  simp only [handle, h]

theorem handle_of_answer {answer : call.Answer} (hf : store.failures = [])
    (h : store.answer supply call = .ok (answer, next)) :
    handle supply call store =
      (.ok answer, { next with counts := store.counts.bump call.operation }) := by
  have hcounted := answer_with supply store call (store.counts.bump call.operation) []
  have hnext : next.failures = [] := (answer_failures h).trans hf
  rw [h] at hcounted
  unfold handle
  simp only [hf, hcounted, hnext]
  rfl

theorem handle_of_refusal (hf : store.failures = []) (h : store.contents.Refuses call error)
    (supply : IdSupply) :
    handle supply call store =
      (.error error, { store with counts := store.counts.bump call.operation }) := by
  have hcounted := answer_with supply store call (store.counts.bump call.operation) []
  rw [answer_eq_error_iff.mpr h] at hcounted
  unfold handle
  simp only [hf, hcounted]
  rfl

theorem handle_counts (supply : IdSupply) (call : Call) (store : Store) :
    (handle supply call store).2.counts = store.counts.bump call.operation ∧
      (handle supply call store).2.failures = store.failures.tail := by
  cases hf : store.failures with
  | cons error failures =>
      rw [handle_of_queued hf]
      exact ⟨rfl, rfl⟩
  | nil =>
      cases ha : store.answer supply call with
      | error error =>
          rw [handle_of_refusal hf (answer_eq_error_iff.mp ha)]
          exact ⟨rfl, hf⟩
      | ok answered =>
          rw [handle_of_answer hf ha]
          exact ⟨rfl, (answer_failures ha).trans hf⟩

theorem failures_of_handle_eq_ok {answer : call.Answer}
    (h : (handle supply call store).1 = .ok answer) : store.failures = [] := by
  cases hf : store.failures with
  | nil => rfl
  | cons error failures =>
      rw [handle_of_queued hf] at h
      cases h

/-- A call for which no failure is queued fails exactly if it is refused. -/
theorem handle_eq_error_iff (hf : store.failures = []) :
    (handle supply call store).1 = .error error ↔ store.contents.Refuses call error := by
  constructor
  · intro h
    cases ha : store.answer supply call with
    | error refusal =>
        have hr := answer_eq_error_iff.mp ha
        rw [handle_of_refusal hf hr] at h
        cases h
        exact hr
    | ok answered =>
        rw [handle_of_answer hf ha] at h
        cases h
  · intro h
    rw [handle_of_refusal hf h]

/-! ### How freezing ends -/

theorem freeze_changes (h : store.freeze id now = .ok next) :
    ∃ bundles, next = { store with contents := { store.contents with bundles } } := by
  unfold freeze at h
  split at h
  · cases h
  · split at h
    · cases h
    · split at h
      · cases h
      · cases h
        exact ⟨_, rfl⟩

theorem after_freeze_of_refusal (h : store.contents.RefusesFreezing id error) (supply : IdSupply)
    (now : Timestamp) : store.after supply (.freeze id now) = store := by
  simp only [after, freeze_eq_error_iff.mpr h]

/-- Freezing is no call: it is not counted, and meets no queued failure. -/
theorem after_freeze (supply : IdSupply) (store : Store) (id : BundleId) (now : Timestamp) :
    (store.after supply (.freeze id now)).counts = store.counts ∧
      (store.after supply (.freeze id now)).failures = store.failures := by
  cases hr : store.freeze id now with
  | error refusal =>
      rw [after_freeze_of_refusal (freeze_eq_error_iff.mp hr)]
      exact ⟨rfl, rfl⟩
  | ok next =>
      obtain ⟨bundles, hnext⟩ := freeze_changes hr
      have hafter : store.after supply (.freeze id now) = next := by simp only [after, hr]
      rw [hafter, hnext]
      exact ⟨rfl, rfl⟩

/-- **Operations are atomic.**  Every call is counted, for its operation and no other.  If failures are
queued, it fails with the first of them, which is used up, and that is all.  If none is queued, it
fails exactly if it is refused, and then nothing else changes either.  Freezing is not counted and uses
up no failure; it fails exactly if it is refused, and then it changes nothing. -/
theorem operations_atomic (supply : IdSupply) (store : Store) :
    (∀ call,
      let outcome := (handle supply call store).1
      let next := (handle supply call store).2
      (∀ operation, next.counts.of operation =
        store.counts.of operation + if operation = call.operation then 1 else 0) ∧
      (∀ error failures, store.failures = error :: failures →
        outcome = .error error ∧ next = { store with counts := next.counts, failures }) ∧
      (store.failures = [] → ∀ error,
        (outcome = .error error ↔ store.contents.Refuses call error) ∧
        (outcome = .error error → next = { store with counts := next.counts }))) ∧
    ∀ id now,
      let next := store.after supply (.freeze id now)
      next.counts = store.counts ∧ next.failures = store.failures ∧ ∀ error,
        (store.freeze id now = .error error ↔ store.contents.RefusesFreezing id error) ∧
        (store.freeze id now = .error error → next = store) := by
  refine ⟨fun call => ⟨?_, ?_, ?_⟩, fun id now => ?_⟩
  · intro operation
    rw [(handle_counts supply call store).1]
    exact store.counts.of_bump call.operation operation
  · intro error failures hf
    rw [handle_of_queued hf]
    exact ⟨rfl, rfl⟩
  · intro hf error
    refine ⟨handle_eq_error_iff hf, fun h => ?_⟩
    rw [handle_of_refusal hf ((handle_eq_error_iff hf).mp h)]
  · obtain ⟨hcounts, hfailures⟩ := after_freeze supply store id now
    refine ⟨hcounts, hfailures, fun error => ⟨freeze_eq_error_iff, fun h => ?_⟩⟩
    exact after_freeze_of_refusal (freeze_eq_error_iff.mp h) supply now

/-- Of the two things that are wrong with a call, the diamond names the first.  When a failure is queued,
it names neither.  Nothing in it came to rest, so nothing is frozen. -/
theorem operations_atomic_diamond :
    let wrong := Call.createBundle (.mounting .dataset "copy" none ["raw"]) "lost" .detached
    let called := handle Stock.strokes wrong
    let troubled := diamond.failNext 1 (.transport "gone")
    let now : Timestamp := ⟨⟨2024, 2, 29⟩, ⟨12, 0, 0, 0⟩, by decide⟩
    (called diamond).1 = .error (.usage "Cannot create a dataset bundle from a description") ∧
      (called diamond).2 = { diamond with counts := (called diamond).2.counts } ∧
      (called diamond).2.counts.of .createBundle = 1 ∧
      (called troubled).1 = .error (.transport "gone") ∧
      (called troubled).2 = { troubled with counts := (called troubled).2.counts, failures := [] } ∧
      diamond.freeze "prep" now =
        .error (.permissionDenied
          "Cannot freeze bundle prep(prep), bundle is not in a final state.") ∧
      diamond.after Stock.strokes (.freeze "prep" now) = diamond := by
  intro wrong called troubled now
  obtain ⟨hcalls, hfreezing⟩ := operations_atomic Stock.strokes diamond
  obtain ⟨hcounts, _, hrefused⟩ := hcalls wrong
  obtain ⟨hiff, hsame⟩ := hrefused rfl (.usage "Cannot create a dataset bundle from a description")
  have hwrong := hiff.mpr (.dataset rfl)
  obtain ⟨hgone, hused⟩ :=
    ((operations_atomic Stock.strokes troubled).1 wrong).2.1 (.transport "gone") [] rfl
  obtain ⟨_, _, hunsettled⟩ := hfreezing "prep" now
  have hfrozen := (hunsettled _).1.mpr (.unsettled (by rfl) rfl rfl)
  exact ⟨hwrong, hsame hwrong, hcounts .createBundle, hgone, hused, hfrozen, (hunsettled _).2 hfrozen⟩

end Store

end Provenance
