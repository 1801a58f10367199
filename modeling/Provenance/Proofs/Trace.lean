import Provenance.Proofs.Calls

/-!
# The events of a run

An `Event` is a call together with its outcome.  `Dialogue.Leads` says through which events a
dialogue may come from a stock to a result and another stock; the store may decide at every call to
fail it.  `Stock.handle` is the store that never does.

* `Leads.of_bind` cuts the events of a sequence in two.
* `Dialogue.exists_leads` finds the events of a run, and `Recorded.exists_leads` says that they are
  the calls that were recorded.
* `Leads.run_eq`: when no event is a failure, the dialogue ends as it does on the store that never
  fails a call, and `Leads.grows` says which bundles it has added then.
* `Recorded.run_eq`: a store with no failures queued never fails a call.
-/

namespace Provenance

/-- A call, and how it ended. -/
structure Event where
  call : Call
  outcome : call.Outcome

/-- The call of an event did not fail. -/
def Event.Succeeded (event : Event) : Prop :=
  ∃ answer, event.outcome = .ok answer

/-- The description that a call is to create a bundle from. -/
def Call.description? : Call → Option Bundle
  | createBundle description _ _ => some description
  | _ => none

theorem Call.description?_eq_none_iff {call : Call} :
    call.description? = none ↔ call.operation ≠ .createBundle := by
  cases call <;> simp [description?, operation]

/-- The id of the bundle that an event has created. -/
def Event.createdId? : Event → Option BundleId
  | ⟨.createBundle _ _ _, .ok made⟩ => made.id
  | _ => none

/-- The handler that keeps a record of the events. -/
def Handler.logging {σ : Type} (handler : Handler σ) : Handler (σ × List Event) := fun call state =>
  let answered := handler call state.1
  (answered.1, answered.2, state.2 ++ [⟨call, answered.1⟩])

theorem Handler.Serves.logging {σ : Type} {handler : Handler σ} {supply : IdSupply} {view : σ → Stock}
    (h : handler.Serves supply view) : handler.logging.Serves supply fun state => view state.1 :=
  fun call state => h call state.1

theorem Stock.Serves.ids_eq {supply : IdSupply} {before after : Stock} {call : Call}
    {outcome : call.Outcome} (h : before.Serves supply call outcome after) :
    after.contents.ids = before.contents.ids ++ (Event.mk call outcome).createdId?.toList := by
  cases outcome with
  | error error =>
      have hsame : after = before := h
      subst hsame
      cases call <;> exact (List.append_nil _).symm
  | ok answer =>
      cases call with
      | fetchBundles => simp [h.fetchBundles.2, Event.createdId?]
      | fetchBundle => simp [h.fetchBundle.2, Event.createdId?]
      | fetchWorksheetsByBundle => simp [h.fetchWorksheetsByBundle.2, Event.createdId?]
      | fetchWorksheet => simp [h.fetchWorksheet.2, Event.createdId?]
      | createBundle =>
          rw [h.createBundle_ids, h.createBundle.1]
          rfl
      | createWorksheetItem => simp [Contents.ids, h.createWorksheetItem.1, Event.createdId?]
      | searchBundles => simp [h.searchBundles.2, Event.createdId?]

namespace Dialogue

variable {α β σ τ : Type} {supply : IdSupply} {before mid after : Stock} {events : List Event}
  {result : α}

/-- Through some events a dialogue may come from a stock to a result and another stock. -/
inductive Leads (supply : IdSupply) : Dialogue α → Stock → List Event → α → Stock → Prop
  | done (result : α) (stock : Stock) : Leads supply (.done result) stock [] result stock
  | ask {call : Call} {next : call.Outcome → Dialogue α} {outcome : call.Outcome}
      {before mid after : Stock} {events : List Event} {result : α}
      (hs : before.Serves supply call outcome mid)
      (hl : Leads supply (next outcome) mid events result after) :
      Leads supply (.ask call next) before (⟨call, outcome⟩ :: events) result after

/-! ### Sequences -/

theorem Leads.of_pure {found : α} (h : (pure found : Dialogue α).Leads supply before events result after) :
    events = [] ∧ result = found ∧ after = before := by
  cases h
  exact ⟨rfl, rfl, rfl⟩

/-- A sequence leads through the events of its first part, and then those of its second. -/
theorem Leads.of_bind {dialogue : Dialogue α} {next : α → Dialogue β} {result : β}
    (h : (dialogue >>= next).Leads supply before events result after) :
    ∃ first second found mid, events = first ++ second ∧
      dialogue.Leads supply before first found mid ∧
      (next found).Leads supply mid second result after := by
  induction dialogue generalizing before events with
  | done found => exact ⟨[], events, found, before, rfl, .done found before, h⟩
  | ask call more ih =>
      obtain _ | ⟨hs, hl⟩ := h
      obtain ⟨first, second, found, mid, rfl, hfirst, hsecond⟩ := ih _ hl
      exact ⟨_ :: first, second, found, mid, rfl, .ask hs hfirst, hsecond⟩

theorem Ensures.of_leads {dialogue : Dialogue α} {post : α → Stock → Prop}
    (h : dialogue.Ensures supply before post)
    (hl : dialogue.Leads supply before events result after) : post result after := by
  induction hl with
  | done => exact h
  | ask hs _ ih => exact ih (h _ _ hs)

theorem Leads.ids_eq {dialogue : Dialogue α}
    (h : dialogue.Leads supply before events result after) :
    after.contents.ids = before.contents.ids ++ events.filterMap Event.createdId? := by
  induction h with
  | done => exact (List.append_nil _).symm
  | @ask call next outcome before mid after events result hs _ ih =>
      rw [ih, hs.ids_eq, List.append_assoc]
      cases hid : (Event.mk call outcome).createdId? <;> simp [hid]

/-! ### Runs -/

/-- A run by a handler that answers like a store leads through some events. -/
theorem exists_leads {handler : Handler σ} {view : σ → Stock} (hh : handler.Serves supply view)
    (dialogue : Dialogue α) (state : σ) : ∃ events,
      dialogue.Leads supply (view state) events (dialogue.run handler state).1
        (view (dialogue.run handler state).2) := by
  induction dialogue generalizing state with
  | done found => exact ⟨[], .done found _⟩
  | ask call more ih =>
      obtain ⟨events, hl⟩ := ih (handler call state).1 (handler call state).2
      exact ⟨_ :: events, .ask (hh call state) hl⟩

theorem exists_leads_logging {handler : Handler σ} {view : σ → Stock}
    (hh : handler.Serves supply view) (dialogue : Dialogue α) (state : σ) (log : List Event) :
    ∃ events, (dialogue.run handler.logging (state, log)).2.2 = log ++ events ∧
      dialogue.Leads supply (view state) events (dialogue.run handler.logging (state, log)).1
        (view (dialogue.run handler.logging (state, log)).2.1) := by
  induction dialogue generalizing state log with
  | done found => exact ⟨[], (List.append_nil log).symm, .done found _⟩
  | ask call more ih =>
      obtain ⟨events, hlog, hl⟩ := ih (handler call state).1 (handler call state).2
        (log ++ [⟨call, (handler call state).1⟩])
      exact ⟨_ :: events, hlog.trans (List.append_assoc log [_] events), .ask (hh call state) hl⟩

/-- Two handlers, one of which is the view of the other, run dialogues alike. -/
theorem run_view {handler : Handler σ} {other : Handler τ} {view : σ → τ} {inv : σ → Prop}
    (hh : ∀ call state, inv state → (handler call state).1 = (other call (view state)).1 ∧
      view (handler call state).2 = (other call (view state)).2 ∧ inv (handler call state).2)
    (dialogue : Dialogue α) {state : σ} (hi : inv state) :
    (dialogue.run handler state).1 = (dialogue.run other (view state)).1 ∧
      view (dialogue.run handler state).2 = (dialogue.run other (view state)).2 ∧
      inv (dialogue.run handler state).2 := by
  induction dialogue generalizing state with
  | done found => exact ⟨rfl, rfl, hi⟩
  | ask call more ih =>
      obtain ⟨houtcome, hview, hi'⟩ := hh call state hi
      have h := ih (handler call state).1 hi'
      rw [hview, houtcome] at h
      simp only [run]
      rw [houtcome]
      exact h

theorem run_keeps {handler : Handler σ} {inv : σ → Prop}
    (hh : ∀ call state, inv state → inv (handler call state).2) (dialogue : Dialogue α) {state : σ}
    (hi : inv state) : inv (dialogue.run handler state).2 := by
  induction dialogue generalizing state with
  | done found => exact hi
  | ask call more ih => exact ih _ (hh call state hi)

end Dialogue

namespace Recorded

/-- The calls of the events of a run are those that it adds to the record. -/
theorem exists_leads {α : Type} (supply : IdSupply) (schedule : List (Nat × StoreError))
    (dialogue : Dialogue α) (recorded : Recorded) : ∃ events,
      dialogue.Leads supply recorded.stock events
        (dialogue.run (handle supply schedule) recorded).1
        (dialogue.run (handle supply schedule) recorded).2.stock ∧
      (dialogue.run (handle supply schedule) recorded).2.calls =
        recorded.calls ++ events.map Event.call := by
  induction dialogue generalizing recorded with
  | done found => exact ⟨[], .done found _, (List.append_nil _).symm⟩
  | ask call more ih =>
      obtain ⟨events, hl, hcalls⟩ :=
        ih (handle supply schedule call recorded).1 (handle supply schedule call recorded).2
      refine ⟨_ :: events, .ask (handle_serves supply schedule call recorded) hl, ?_⟩
      refine hcalls.trans ?_
      rw [List.map_cons]
      exact List.append_assoc recorded.calls [call] _

end Recorded

/-! ### A store that never fails a call -/

namespace Store

/-- A store of a stock, not called yet. -/
def ofStock (stock : Stock) : Store :=
  { ofContents stock.contents with allocated := stock.allocated }

/-- The answer to a call, and the stock after it, depend on the stock only. -/
theorem answer_congr (supply : IdSupply) (store other : Store) (h : store.stock = other.stock)
    (call : Call) :
    (store.answer supply call).map (fun answered => (answered.1, answered.2.stock)) =
      (other.answer supply call).map fun answered => (answered.1, answered.2.stock) := by
  obtain ⟨contents, _, _, _, _, allocated⟩ := store
  obtain ⟨contents', _, _, _, _, allocated'⟩ := other
  obtain ⟨rfl, rfl⟩ : contents = contents' ∧ allocated = allocated' := Stock.mk.inj h
  cases call with
  | fetchBundles specs depth =>
      simp only [answer]
      cases contents.fetchBundles specs depth <;> rfl
  | fetchBundle id =>
      simp only [answer]
      cases contents.fetchBundle id <;> rfl
  | fetchWorksheetsByBundle id => rfl
  | fetchWorksheet id =>
      simp only [answer]
      cases contents.fetchWorksheet id <;> rfl
  | createBundle description target placement =>
      simp only [answer, createBundle]
      cases description.kind.isDerived <;> cases contents.worksheet? target <;> rfl
  | createWorksheetItem item target =>
      simp only [answer, createWorksheetItem]
      cases item.bundleId?.filter (fun id => (contents.bundle? id).isNone) <;>
        cases contents.worksheet? target <;> rfl
  | searchBundles command keys => rfl

end Store

namespace Stock

/-- Answers every call as well as the contents allow. -/
def handle (supply : IdSupply) : Handler Stock := fun call stock =>
  match (Store.ofStock stock).answer supply call with
  | .ok (answer, next) => (.ok answer, next.stock)
  | .error error => (.error error, stock)

variable {supply : IdSupply} {before after : Stock} {call : Call}

theorem Serves.handle_eq {answer : call.Answer} (h : before.Serves supply call (.ok answer) after) :
    handle supply call before = (.ok answer, after) := by
  obtain ⟨store, next, rfl, ha, rfl⟩ := h
  have hstock := Store.answer_congr supply store (Store.ofStock store.stock) rfl call
  rw [ha] at hstock
  unfold handle
  cases hown : (Store.ofStock store.stock).answer supply call with
  | error error => rw [hown] at hstock; cases hstock
  | ok answered =>
      rw [hown] at hstock
      obtain ⟨rfl, hnext⟩ := Prod.mk.inj (Except.ok.inj hstock)
      simp only [hnext]

/-- Only a call that creates a bundle takes an id from the supply, and stores a bundle under it. -/
theorem Serves.grows {answer : call.Answer} (h : before.Serves supply call (.ok answer) after) :
    after.allocated = before.allocated + call.description?.toList.length ∧
      after.contents.bundles = before.contents.bundles ++ call.description?.toList.map fun description =>
        before.contents.newBundle description (supply before.allocated) := by
  cases call with
  | fetchBundles => simp [h.fetchBundles.2, Call.description?]
  | fetchBundle => simp [h.fetchBundle.2, Call.description?]
  | fetchWorksheetsByBundle => simp [h.fetchWorksheetsByBundle.2, Call.description?]
  | fetchWorksheet => simp [h.fetchWorksheet.2, Call.description?]
  | createBundle => exact ⟨h.createBundle.2.2, h.createBundle.2.1⟩
  | createWorksheetItem =>
      obtain ⟨hbundles, hallocated⟩ := h.createWorksheetItem
      simp [hbundles, hallocated, Call.description?]
  | searchBundles => simp [h.searchBundles.2, Call.description?]

theorem Serves.ownerId_eq {outcome : call.Outcome} (h : before.Serves supply call outcome after) :
    after.contents.ownerId = before.contents.ownerId := by
  cases outcome with
  | error error =>
      have hsame : after = before := h
      rw [hsame]
  | ok answer =>
      cases call with
      | fetchBundles => rw [h.fetchBundles.2]
      | fetchBundle => rw [h.fetchBundle.2]
      | fetchWorksheetsByBundle => rw [h.fetchWorksheetsByBundle.2]
      | fetchWorksheet => rw [h.fetchWorksheet.2]
      | createBundle =>
          rw [h.createBundle_eq.2, Contents.placeNew_ownerId]
          rfl
      | createWorksheetItem => rw [h.createWorksheetItem_eq.2]; rfl
      | searchBundles => rw [h.searchBundles.2]

theorem handle_serves (supply : IdSupply) : (handle supply).Serves supply id := by
  intro call stock
  unfold handle
  split
  · rename_i answer next ha
    exact ⟨Store.ofStock stock, next, rfl, ha, rfl⟩
  · rfl

theorem handle_fetchBundle (supply : IdSupply) (stock : Stock) (id : BundleId) :
    (handle supply (.fetchBundle id) stock).1 = stock.contents.fetchBundle id := by
  have hcontents : (Store.ofStock stock).contents = stock.contents := rfl
  simp only [handle, Store.answer, hcontents]
  cases stock.contents.fetchBundle id <;> rfl

theorem handle_fetchBundles (supply : IdSupply) (stock : Stock) (specs : List String)
    (depth : Option Nat) :
    (handle supply (.fetchBundles specs depth) stock).1 =
      stock.contents.fetchBundles specs depth := by
  have hcontents : (Store.ofStock stock).contents = stock.contents := rfl
  simp only [handle, Store.answer, hcontents]
  cases stock.contents.fetchBundles specs depth <;> rfl

end Stock

namespace Store

/-- Neither the counts of the calls nor the queued failures matter for an answer. -/
theorem answer_with (supply : IdSupply) (store : Store) (call : Call) (counts : CallCounts)
    (failures : List StoreError) :
    { store with counts, failures }.answer supply call =
      (store.answer supply call).map fun answered =>
        (answered.1, { answered.2 with counts, failures }) := by
  cases call with
  | fetchBundles specs depth =>
      simp only [answer]
      cases store.contents.fetchBundles specs depth <;> rfl
  | fetchBundle id =>
      simp only [answer]
      cases store.contents.fetchBundle id <;> rfl
  | fetchWorksheetsByBundle id => rfl
  | fetchWorksheet id =>
      simp only [answer]
      cases store.contents.fetchWorksheet id <;> rfl
  | createBundle description target placement =>
      simp only [answer, createBundle]
      cases description.kind.isDerived <;> cases store.contents.worksheet? target <;> rfl
  | createWorksheetItem item target =>
      simp only [answer, createWorksheetItem]
      cases item.bundleId?.filter (fun id => (store.contents.bundle? id).isNone) <;>
        cases store.contents.worksheet? target <;> rfl
  | searchBundles command keys => rfl

theorem answer_failures {supply : IdSupply} {store next : Store} {call : Call} {answer : call.Answer}
    (h : store.answer supply call = .ok (answer, next)) : next.failures = store.failures := by
  have hsame : store.answer supply call = (store.answer supply call).map fun answered =>
      (answered.1, { answered.2 with counts := store.counts, failures := store.failures }) :=
    answer_with supply store call store.counts store.failures
  rw [h] at hsame
  exact (congrArg failures (Prod.mk.inj (Except.ok.inj hsame)).2).trans rfl

theorem handle_eq (supply : IdSupply) (call : Call) (store : Store) (hf : store.failures = []) :
    (handle supply call store).1 = (Stock.handle supply call store.stock).1 ∧
      (handle supply call store).2.stock = (Stock.handle supply call store.stock).2 ∧
      (handle supply call store).2.failures = [] := by
  obtain ⟨contents, counts, failures, made, items, allocated⟩ := store
  obtain rfl : failures = [] := hf
  have hcongr := answer_congr supply
    ⟨contents, counts.bump call.operation, [], made, items, allocated⟩
    (ofStock ⟨contents, allocated⟩) rfl call
  simp only [handle, Stock.handle, stock]
  cases ha : answer supply ⟨contents, counts.bump call.operation, [], made, items, allocated⟩ call with
  | error error =>
      rw [ha] at hcongr
      cases hb : answer supply (ofStock ⟨contents, allocated⟩) call with
      | error other =>
          rw [hb] at hcongr
          cases hcongr
          exact ⟨rfl, rfl, rfl⟩
      | ok answered => rw [hb] at hcongr; cases hcongr
  | ok answered =>
      rw [ha] at hcongr
      cases hb : answer supply (ofStock ⟨contents, allocated⟩) call with
      | error other => rw [hb] at hcongr; cases hcongr
      | ok other =>
          rw [hb] at hcongr
          obtain ⟨hanswer, hnext⟩ := Prod.mk.inj (Except.ok.inj hcongr)
          exact ⟨congrArg Except.ok hanswer, hnext, answer_failures ha⟩

end Store

namespace Dialogue

variable {α : Type} {supply : IdSupply} {before after : Stock} {events : List Event} {result : α}

/-- What a dialogue ensures holds when no call of it is failed. -/
theorem Ensures.of_run {dialogue : Dialogue α} {post : α → Stock → Prop}
    (h : dialogue.Ensures supply before post)
    (hr : dialogue.run (Stock.handle supply) before = (result, after)) : post result after := by
  have hpost := Ensures.run (Stock.handle_serves supply) h
  rw [hr] at hpost
  exact hpost

theorem exists_leads_of_run {dialogue : Dialogue α}
    (hr : dialogue.run (Stock.handle supply) before = (result, after)) :
    ∃ events, dialogue.Leads supply before events result after := by
  obtain ⟨events, hleads⟩ := exists_leads (Stock.handle_serves supply) dialogue before
  rw [hr] at hleads
  exact ⟨events, hleads⟩

/-- When no call fails, a dialogue ends as it does on a store that never fails one. -/
theorem Leads.run_eq {dialogue : Dialogue α} (h : dialogue.Leads supply before events result after)
    (hs : ∀ event ∈ events, event.Succeeded) :
    dialogue.run (Stock.handle supply) before = (result, after) := by
  induction h with
  | done => rfl
  | @ask call next outcome before mid after events result hserves _ ih =>
      obtain ⟨answer, rfl⟩ : ∃ answer : call.Answer, outcome = .ok answer := hs _ List.mem_cons_self
      rw [run, hserves.handle_eq]
      exact ih fun event he => hs event (List.mem_cons_of_mem _ he)

/-- When no call fails, each call to create a bundle takes an id from the supply, and the stored
bundles are followed by the new ones, in the order of the calls. -/
theorem Leads.grows {dialogue : Dialogue α} (h : dialogue.Leads supply before events result after)
    (hs : ∀ event ∈ events, event.Succeeded) :
    after.allocated =
        before.allocated + (events.filterMap fun event => event.call.description?).length ∧
      after.contents.bundles = before.contents.bundles ++
        (events.filterMap fun event => event.call.description?).mapIdx fun number description =>
          before.contents.newBundle description (supply (before.allocated + number)) := by
  induction h with
  | done => simp
  | @ask call next outcome before mid after events result hserves _ ih =>
      obtain ⟨answer, rfl⟩ : ∃ answer : call.Answer, outcome = .ok answer := hs _ List.mem_cons_self
      obtain ⟨hrestAllocated, hrest⟩ := ih fun event he => hs event (List.mem_cons_of_mem _ he)
      obtain ⟨hallocated, hbundles⟩ := hserves.grows
      have hnew : ∀ description id, mid.contents.newBundle description id =
          before.contents.newBundle description id :=
        Contents.newBundle_congr hserves.ownerId_eq
      rw [hrestAllocated, hrest, hallocated, hbundles]
      cases hcall : call.description? with
      | none => simp [hcall, hnew]
      | some description => simp [hcall, hnew, Nat.add_assoc, Nat.add_comm 1]

theorem Leads.operation_ne {dialogue : Dialogue α}
    (h : dialogue.Leads supply before events result after)
    (hs : ∀ event ∈ events, event.Succeeded)
    (hb : after.contents.bundles = before.contents.bundles) :
    ∀ event ∈ events, event.call.operation ≠ .createBundle := by
  have hadded := (h.grows hs).2
  rw [hb, List.self_eq_append_right, List.mapIdx_eq_nil_iff] at hadded
  intro event he
  exact Call.description?_eq_none_iff.mp (List.filterMap_eq_nil_iff.mp hadded event he)

end Dialogue

/-! ### Stores without queued failures -/

namespace Recorded

theorem handle_eq (supply : IdSupply) (call : Call) (recorded : Recorded)
    (hf : recorded.store.failures = []) :
    (handle supply [] call recorded).1 = (Stock.handle supply call recorded.stock).1 ∧
      (handle supply [] call recorded).2.stock = (Stock.handle supply call recorded.stock).2 ∧
      (handle supply [] call recorded).2.store.failures = [] :=
  Store.handle_eq supply call recorded.store hf

theorem run_eq {α : Type} (supply : IdSupply) (dialogue : Dialogue α) {recorded : Recorded}
    (hf : recorded.store.failures = []) :
    (dialogue.run (handle supply []) recorded).1 =
        (dialogue.run (Stock.handle supply) recorded.stock).1 ∧
      (dialogue.run (handle supply []) recorded).2.stock =
        (dialogue.run (Stock.handle supply) recorded.stock).2 ∧
      (dialogue.run (handle supply []) recorded).2.store.failures = [] :=
  Dialogue.run_view (handle_eq supply) dialogue hf

theorem run_failures {α : Type} (supply : IdSupply) (number : Nat) (error : StoreError)
    (dialogue : Dialogue α) {recorded : Recorded} (hf : recorded.store.failures = []) :
    (dialogue.run (handle supply [(number, error)]) recorded).2.store.failures = [] := by
  have hkeeps : ∀ call recorded, recorded.store.failures = [] →
      (handle supply [(number, error)] call recorded).2.store.failures = [] := by
    intro call recorded hf
    simp only [handle, disturb, List.foldl_cons, List.foldl_nil]
    split
    · simp only [Store.handle, Store.failNext, hf, List.replicate_one, List.nil_append]
    · exact (Store.handle_eq supply call recorded.store hf).2.2
  exact Dialogue.run_keeps hkeeps dialogue hf

end Recorded

end Provenance
