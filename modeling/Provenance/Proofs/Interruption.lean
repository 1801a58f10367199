import Provenance.Proofs.Retrying

/-!
# A replay that is broken off

`Dialogue.stateAfter` is how far a run has come after its first calls.  When one call of an orderly
dialogue fails, the run ends there, and what was done before it stays.

* `Orderly.run_interrupted`: this holds on a store for which a single failure is scheduled.
* `Request.replay_aborts`: it holds of a replay, whether its calls are attempted once or again.
-/

namespace Provenance

namespace Dialogue

variable {α σ : Type}

/-- The state of a handler after the first `count` calls of a run, or all of them. -/
def stateAfter (handler : Handler σ) : (count : Nat) → Dialogue α → σ → σ
  | 0, _, state => state
  | _ + 1, done _, state => state
  | count + 1, ask call next, state =>
    (next (handler call state).1).stateAfter handler count (handler call state).2

end Dialogue

namespace Recorded

variable {α : Type} {recorded : Recorded}

theorem stateAfter_calls (supply : IdSupply) (dialogue : Dialogue α) (recorded : Recorded)
    (count : Nat) :
    (dialogue.stateAfter (handle supply []) count recorded).calls =
      (dialogue.run (handle supply []) recorded).2.calls.take (recorded.calls.length + count) := by
  induction dialogue generalizing recorded count with
  | done result =>
      cases count <;> exact (List.take_of_length_le (Nat.le_add_right _ _)).symm
  | ask call more ih =>
      cases count with
      | zero =>
          obtain ⟨_, _, hcalls⟩ := exists_leads supply [] (.ask call more) recorded
          rw [hcalls]
          exact (List.take_left' rfl).symm
      | succ count =>
          have hlength : (handle supply [] call recorded).2.calls.length =
              recorded.calls.length + 1 := List.length_append.trans rfl
          have hrest := ih (handle supply [] call recorded).1 (handle supply [] call recorded).2 count
          rw [hlength, Nat.add_assoc, Nat.add_comm 1] at hrest
          exact hrest

theorem handle_of_ne {number : Nat} (h : number ≠ recorded.calls.length) (supply : IdSupply)
    (error : StoreError) (call : Call) :
    handle supply [(number, error)] call recorded = handle supply [] call recorded := by
  simp only [handle, disturb, List.foldl_cons, List.foldl_nil, if_neg h]

theorem handle_of_eq (hf : recorded.store.failures = []) (supply : IdSupply) (error : StoreError)
    (call : Call) : ∃ counts,
      handle supply [(recorded.calls.length, error)] call recorded =
        (.error error, ⟨{ recorded.store with counts }, recorded.calls ++ [call]⟩) := by
  obtain ⟨⟨contents, counts, failures, made, items, allocated⟩, calls⟩ := recorded
  obtain rfl : failures = [] := hf
  refine ⟨counts.bump call.operation, ?_⟩
  simp [handle, disturb, Store.handle, Store.failNext]

end Recorded

namespace Dialogue.Orderly

open Reporting

variable {α : Type} [Reporting α] {allowed : Call → Prop} {post : α → Prop}
  {dialogue : Dialogue α}

/-- **The call that fails is the last one** of an orderly dialogue: its failure is reported, and the
store is what it was after the calls before it, but that the failed one is counted. -/
theorem run_interrupted (h : dialogue.Orderly allowed post) (supply : IdSupply) (error : StoreError)
    {recorded : Recorded} (hf : recorded.store.failures = []) {number count : Nat}
    (hn : number = recorded.calls.length + count)
    (hc : number < (dialogue.run (Recorded.handle supply []) recorded).2.calls.length) :
    failure? (dialogue.run (Recorded.handle supply [(number, error)]) recorded).1 = some error ∧
      (dialogue.run (Recorded.handle supply [(number, error)]) recorded).2.calls =
        (dialogue.run (Recorded.handle supply []) recorded).2.calls.take (number + 1) ∧
      ∃ counts, (dialogue.run (Recorded.handle supply [(number, error)]) recorded).2.store =
        { (dialogue.stateAfter (Recorded.handle supply []) count recorded).store with counts } := by
  -- by induction on the dialogue: the number stays, and the calls left until then get fewer
  induction dialogue generalizing recorded count with
  | done result => exact absurd hc (by simp [run, hn])
  | ask call more ih =>
      obtain ⟨_, hfail, hmore⟩ := h
      let next := (Recorded.handle supply [] call recorded).2
      have hlength : next.calls.length = recorded.calls.length + 1 := List.length_append.trans rfl
      cases count with
      | zero =>
          obtain rfl : number = recorded.calls.length := hn
          obtain ⟨counts, hfirst⟩ := Recorded.handle_of_eq hf supply error call
          obtain ⟨result, hdone, hreport, _⟩ := hfail error
          obtain ⟨_, _, hcalls⟩ := Recorded.exists_leads supply []
            (more (Recorded.handle supply [] call recorded).1) next
          simp only [run, hfirst, hdone]
          rw [hcalls, List.take_left' hlength]
          exact ⟨hreport, rfl, counts, rfl⟩
      | succ count =>
          have hother : number ≠ recorded.calls.length := by omega
          have hfirst := Recorded.handle_of_ne hother supply error call
          have hnone : next.store.failures = [] := (Recorded.handle_eq supply call recorded hf).2.2
          simp only [run, stateAfter, hfirst] at hc ⊢
          cases houtcome : (Recorded.handle supply [] call recorded).1 with
          | error other =>
              obtain ⟨result, hdone, _⟩ := hfail other
              rw [houtcome, hdone] at hc
              have hlast : number < next.calls.length := hc
              omega
          | ok answer =>
              rw [houtcome] at hc
              exact ih _ (hmore answer) hnone (by omega) hc

end Dialogue.Orderly

theorem ReplayError.eq_store {α : Type} {result : Except ReplayError α} {error : StoreError}
    (h : Reporting.failure? result = some error) : result = .error (.store error) := by
  obtain (_ | _ | _ | _ | _ | cause) | _ := result <;> cases h
  rfl

namespace Request

open Dialogue

/-- **A failure of the store ends a replay at once**, whichever of its calls it hits.  The failure is
what the replay reports, no call follows, and nothing is rolled back: but for the counts of the calls,
the store is what it was after the calls before.  If the failure is none of the transport, it makes no
difference whether calls are attempted again. -/
theorem replay_aborts (request : Request) (supply : IdSupply) (store : Store)
    (hf : store.failures = []) (error : StoreError) {number : Nat}
    (hn : number <
      (request.replay.run (Recorded.handle supply []) (.ofStore store)).2.calls.length) :
    let whole := request.replay.run (Recorded.handle supply []) (.ofStore store)
    let reached := request.replay.stateAfter (Recorded.handle supply []) number (.ofStore store)
    let failing := Recorded.handle supply [(number, error)]
    let failed := request.replay.run failing (.ofStore store)
    failed.1 = .error (.store error) ∧
      reached.calls = whole.2.calls.take number ∧
      failed.2.calls = whole.2.calls.take (number + 1) ∧
      (∃ counts, failed.2.store = { reached.store with counts }) ∧
      (error.isTransient = false → ∀ policy : RetryPolicy,
        request.replay.run (policy.retrying failing) ⟨.ofStore store, []⟩ =
          (failed.1, ⟨failed.2, []⟩)) := by
  intro whole reached failing failed
  have hnumber : number = (Recorded.ofStore store).calls.length + number := (Nat.zero_add _).symm
  obtain ⟨hreport, hcalls, hstore⟩ :=
    request.replay_orderly.run_interrupted supply error hf hnumber hn
  refine ⟨ReplayError.eq_store hreport, ?_, hcalls, hstore, ?_⟩
  · have hreached := Recorded.stateAfter_calls supply request.replay (.ofStore store) number
    rwa [← hnumber] at hreached
  · intro hlasting policy
    have hscheduled : ∀ due ∈ [(number, error)], due.2.isTransient = false := by
      intro due hd
      rw [List.mem_singleton.mp hd]
      exact hlasting
    have hnone : ∀ queued ∈ (Recorded.ofStore store).store.failures, queued.isTransient = false := by
      intro queued hqueued
      change queued ∈ store.failures at hqueued
      rw [hf] at hqueued
      cases hqueued
    have hkept : ∀ call (recorded : Recorded),
        (∀ queued ∈ recorded.store.failures, queued.isTransient = false) →
        Call.isLost (failing call recorded).1 = false ∧
          ∀ queued ∈ (failing call recorded).2.store.failures, queued.isTransient = false :=
      fun call _ h => Recorded.handle_not_isLost supply hscheduled call h
    exact run_retrying_of_not_isLost hkept policy request.replay hnone

/-- The replay of the diamond ends when its second bundle is to be created.  The first one stays, and the
standard policy makes no further attempt. -/
theorem diamond_aborts :
    let failing := Recorded.handle Stock.strokes [(8, .internal "full")]
    let failed := (diamond (some "eval")).replay.run failing (.ofStore Store.diamond)
    let retried := (diamond (some "eval")).replay.run (RetryPolicy.standard.retrying failing)
      ⟨.ofStore Store.diamond, []⟩
    failed.2.store.contents.ids = Store.diamond.contents.ids ++ ["|"] ∧
      failed.1 = .error (.store (.internal "full")) ∧ retried = (failed.1, ⟨failed.2, []⟩) := by
  intro failing failed retried
  have hids : failed.2.store.contents.ids = Store.diamond.contents.ids ++ ["|"] := by
    decide +kernel
  have hnumber : 8 < ((diamond (some "eval")).replay.run (Recorded.handle Stock.strokes [])
      (.ofStore Store.diamond)).2.calls.length := by
    decide +kernel
  obtain ⟨hfailed, _, _, _, hretried⟩ := replay_aborts (diamond (some "eval")) Stock.strokes
    Store.diamond rfl (.internal "full") hnumber
  exact ⟨hids, hfailed, hretried rfl .standard⟩

end Request

end Provenance
