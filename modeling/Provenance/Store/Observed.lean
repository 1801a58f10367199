import Provenance.Store.Basic

/-!
# Watching and disturbing a store

Handlers around another handler: one that keeps a record of the calls, one that lets certain calls
fail, and one whose new bundles are answered without their id.
-/

namespace Provenance

/-- A store whose calls are recorded. -/
structure Recorded where
  store : Store
  /-- The calls that reached the store, in order. -/
  calls : List Call

namespace Recorded

/-- A store from which no call is recorded yet. -/
def ofStore (store : Store) : Recorded :=
  ⟨store, []⟩

/-- Queues the failures that are due at the next call. -/
def disturb (schedule : List (Nat × StoreError)) (recorded : Recorded) : Store :=
  schedule.foldl
    (fun store due => if due.1 = recorded.calls.length then store.failNext 1 due.2 else store)
    recorded.store

/-- Answers calls from the store, recording them.  Just before the call with the number `n`, counted
from zero, the failures due at `n` are queued. -/
def handle (supply : IdSupply) (schedule : List (Nat × StoreError)) : Handler Recorded :=
  fun call recorded =>
    let answered := (recorded.disturb schedule).handle supply call
    (answered.1, ⟨answered.2, recorded.calls ++ [call]⟩)

end Recorded

/-- The outcome of a call in which a new bundle has no id. -/
def Call.anonymize : (call : Call) → call.Outcome → call.Outcome
  | .createBundle _ _ _, outcome => outcome.map fun bundle => { bundle with id := none }
  | .fetchBundles _ _, outcome | .fetchBundle _, outcome | .fetchWorksheetsByBundle _, outcome
  | .fetchWorksheet _, outcome | .createWorksheetItem _ _, outcome
  | .searchBundles _ _, outcome => outcome

/-- The handler that answers new bundles without their id. -/
def Handler.anonymizing {σ : Type} (handler : Handler σ) : Handler σ := fun call state =>
  let answered := handler call state
  (call.anonymize answered.1, answered.2)

end Provenance
