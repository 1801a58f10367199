import Provenance.Store.Error
import Provenance.Worksheet.Basic

/-!
# Talking to a store

A `Call` is a question to a store, and `Call.Answer` the type of what it is answered with when it
does not fail.  A `Dialogue` is a program that does nothing but call a store: either it is done, or
it makes a call and goes on depending on the outcome.

What a dialogue does depends on the `Handler` that answers it: a function from a call and a state to
an outcome and the next state.  Hence a statement about a program over all stores is a statement
about one dialogue and all handlers.  `Dialogue.run_bind` says that running one dialogue after
another is running their sequence.
-/

namespace Provenance

/-- Where a new bundle is put. -/
inductive CreatePlacement where
  /-- Behind every item for this bundle, on every worksheet. -/
  | shadow (old : BundleId)
  /-- On no worksheet. -/
  | detached
deriving DecidableEq

/-- A call to a store. -/
inductive Call where
  /-- The bundles that ids or names stand for, and their descendants down to `depth` levels. -/
  | fetchBundles (specs : List String) (depth : Option Nat)
  /-- One bundle. -/
  | fetchBundle (id : BundleId)
  /-- The worksheets with an item for a bundle. -/
  | fetchWorksheetsByBundle (id : BundleId)
  /-- One worksheet, with its items. -/
  | fetchWorksheet (id : WorksheetId)
  /-- A new bundle from a description. -/
  | createBundle (description : Bundle) (worksheet : WorksheetId) (placement : CreatePlacement)
  /-- A new item at the end of a worksheet. -/
  | createWorksheetItem (item : WorksheetItem) (worksheet : WorksheetId)
  /-- The bundles with a command and a list of dependency keys, the oldest first. -/
  | searchBundles (command : Option String) (keys : List DependencyKey)
deriving DecidableEq

namespace Call

/-- Which operation a call is for. -/
def operation : Call → Operation
  | fetchBundles _ _ => .fetchBundles
  | fetchBundle _ => .fetchBundle
  | fetchWorksheetsByBundle _ => .fetchWorksheetsByBundle
  | fetchWorksheet _ => .fetchWorksheet
  | createBundle _ _ _ => .createBundle
  | createWorksheetItem _ _ => .createWorksheetItem
  | searchBundles _ _ => .searchBundles

/-- What a call is answered with. -/
abbrev Answer : Call → Type
  | fetchBundles _ _ => List Bundle
  | fetchBundle _ => Bundle
  | fetchWorksheetsByBundle _ => List WorksheetSummary
  | fetchWorksheet _ => Worksheet
  | createBundle _ _ _ => Bundle
  | createWorksheetItem _ _ => WorksheetItem
  | searchBundles _ _ => List Bundle

/-- How a call ends. -/
abbrev Outcome (call : Call) : Type :=
  Except StoreError call.Answer

end Call

/-- A program that calls a store and ends with a result. -/
inductive Dialogue (α : Type) where
  /-- The result. -/
  | done (result : α)
  /-- A call, and how to go on. -/
  | ask (call : Call) (next : call.Outcome → Dialogue α)

namespace Dialogue

variable {α β σ : Type}

/-- Goes on with what depends on the result. -/
def bind (dialogue : Dialogue α) (next : α → Dialogue β) : Dialogue β :=
  match dialogue with
  | done result => next result
  | ask call more => ask call fun outcome => (more outcome).bind next

instance : Monad Dialogue where
  pure := done
  bind := bind

/-- One call, whose outcome is the result. -/
def call (call : Call) : Dialogue call.Outcome :=
  ask call done

end Dialogue

/-- Answers calls, keeping a state. -/
abbrev Handler (σ : Type) : Type :=
  (call : Call) → σ → call.Outcome × σ

namespace Dialogue

variable {α β γ σ : Type}

/-- Lets a handler answer a dialogue. -/
def run (handler : Handler σ) : Dialogue α → σ → α × σ
  | done result, state => (result, state)
  | ask call next, state =>
    let answered := handler call state
    run handler (next answered.1) answered.2

@[simp] theorem run_pure (handler : Handler σ) (result : α) (state : σ) :
    (pure result : Dialogue α).run handler state = (result, state) := rfl

theorem run_bind (handler : Handler σ) (dialogue : Dialogue α) (next : α → Dialogue β)
    (state : σ) :
    (dialogue >>= next).run handler state =
      (next (dialogue.run handler state).1).run handler (dialogue.run handler state).2 := by
  induction dialogue generalizing state with
  | done result => rfl
  | ask call more ih => exact ih _ _

@[simp] theorem run_call (handler : Handler σ) (c : Call) (state : σ) :
    (call c).run handler state = handler c state := rfl

theorem run_map (handler : Handler σ) (f : α → β) (dialogue : Dialogue α) (state : σ) :
    (f <$> dialogue).run handler state =
      (f (dialogue.run handler state).1, (dialogue.run handler state).2) :=
  run_bind handler dialogue (fun result => done (f result)) state

theorem map_id (dialogue : Dialogue α) : id <$> dialogue = dialogue := by
  induction dialogue with
  | done result => rfl
  | ask call more ih => exact congrArg (ask call) (funext ih)

theorem bind_bind (dialogue : Dialogue α) (f : α → Dialogue β) (g : β → Dialogue γ) :
    dialogue >>= f >>= g = dialogue >>= fun result => f result >>= g := by
  induction dialogue with
  | done result => rfl
  | ask call more ih => exact congrArg (ask call) (funext ih)

instance : LawfulMonad Dialogue :=
  LawfulMonad.mk' Dialogue map_id (fun _ _ => rfl) bind_bind

end Dialogue

end Provenance
