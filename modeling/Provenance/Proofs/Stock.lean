import Provenance.Store.Observed

/-!
# What a store may answer

The answers of a store depend on its contents and on how many ids it gave out; together they are its
`Stock`.  A call either fails and leaves the stock alone, or it is answered from the contents:
`Stock.Serves`.  `Dialogue.Ensures` says that a dialogue ends well however the store decides, call
by call, between these two.

* `Dialogue.ensures_bind` takes a sequence of dialogues apart, and `Dialogue.Finds.bind` one of
  dialogues that only read.
* `Dialogue.Ensures.run` carries a statement over to every handler that answers like a store:
  `Store.handle_serves` and `Recorded.handle_serves` say that a store does, also when failures are
  queued for it.
-/

namespace Provenance

/-- What the answers of a store depend on. -/
structure Stock where
  contents : Contents
  allocated : Nat

/-- The stock of a store. -/
def Store.stock (store : Store) : Stock :=
  ⟨store.contents, store.allocated⟩

/-- A call may end with an outcome: either it failed and changed nothing, or it was answered. -/
def Stock.Serves (supply : IdSupply) (before : Stock) (call : Call) :
    call.Outcome → Stock → Prop
  | .error _, after => after = before
  | .ok answer, after => ∃ store next : Store,
      store.stock = before ∧ store.answer supply call = .ok (answer, next) ∧ next.stock = after

/-- A handler answers like a store, whose stock is seen through `view`. -/
def Handler.Serves {σ : Type} (handler : Handler σ) (supply : IdSupply) (view : σ → Stock) : Prop :=
  ∀ call state, (view state).Serves supply call (handler call state).1 (view (handler call state).2)

namespace Dialogue

variable {α β ε ε' σ : Type} {supply : IdSupply} {stock : Stock}

/-- However a store decides which calls fail, the dialogue ends so that `post` holds. -/
def Ensures (supply : IdSupply) : Dialogue α → Stock → (α → Stock → Prop) → Prop
  | done result, stock, post => post result stock
  | ask call next, stock, post => ∀ outcome after,
      stock.Serves supply call outcome after → (next outcome).Ensures supply after post

/-! ### Sequences -/

theorem ensures_bind {dialogue : Dialogue α} {next : α → Dialogue β} {post : β → Stock → Prop} :
    (dialogue >>= next).Ensures supply stock post ↔
      dialogue.Ensures supply stock fun result after => (next result).Ensures supply after post := by
  induction dialogue generalizing stock with
  | done result => rfl
  | ask call more ih =>
      constructor
      · intro h outcome after hs
        exact (ih outcome).mp (h outcome after hs)
      · intro h outcome after hs
        exact (ih outcome).mpr (h outcome after hs)

theorem Ensures.mono {dialogue : Dialogue α} {post post' : α → Stock → Prop}
    (h : dialogue.Ensures supply stock post) (hp : ∀ result after, post result after → post' result after) :
    dialogue.Ensures supply stock post' := by
  induction dialogue generalizing stock with
  | done result => exact hp _ _ h
  | ask call more ih =>
      intro outcome after hs
      exact ih outcome (h outcome after hs)

theorem Ensures.and {dialogue : Dialogue α} {post post' : α → Stock → Prop}
    (h : dialogue.Ensures supply stock post) (h' : dialogue.Ensures supply stock post') :
    dialogue.Ensures supply stock fun result after => post result after ∧ post' result after := by
  induction dialogue generalizing stock with
  | done result => exact ⟨h, h'⟩
  | ask call more ih =>
      intro outcome after hs
      exact ih outcome (h outcome after hs) (h' outcome after hs)

theorem Ensures.bind {dialogue : Dialogue α} {next : α → Dialogue β} {mid : α → Stock → Prop}
    {post : β → Stock → Prop} (h : dialogue.Ensures supply stock mid)
    (hn : ∀ result after, mid result after → (next result).Ensures supply after post) :
    (dialogue >>= next).Ensures supply stock post :=
  ensures_bind.mpr (h.mono hn)

theorem ensures_call {c : Call} {post : c.Outcome → Stock → Prop} :
    (call c).Ensures supply stock post ↔
      ∀ outcome after, stock.Serves supply c outcome after → post outcome after := Iff.rfl

/-! ### Reading -/

/-- The dialogue leaves the stock alone, and unless it fails, it finds something with `post`. -/
def Finds (supply : IdSupply) (dialogue : Dialogue (Except ε α)) (stock : Stock)
    (post : α → Prop) : Prop :=
  dialogue.Ensures supply stock fun result after =>
    after = stock ∧ ∀ found, result = .ok found → post found

theorem finds_error {error : ε} {post : α → Prop} :
    (pure (.error error) : Dialogue (Except ε α)).Finds supply stock post :=
  ⟨rfl, nofun⟩

theorem finds_ok {found : α} {post : α → Prop} (h : post found) :
    (pure (.ok found) : Dialogue (Except ε α)).Finds supply stock post := by
  refine ⟨rfl, ?_⟩
  intro other ho
  cases ho
  exact h

theorem finds_call {c : Call} {post : c.Answer → Prop} (h : ∀ answer after,
      stock.Serves supply c (.ok answer) after → post answer ∧ after = stock) :
    (call c).Finds supply stock post := by
  intro outcome after hs
  cases outcome with
  | error error => exact ⟨hs, nofun⟩
  | ok answer =>
      obtain ⟨hpost, hafter⟩ := h answer after hs
      refine ⟨hafter, ?_⟩
      intro found hf
      cases hf
      exact hpost

/-- A dialogue that reads is followed by another, whose start depends on how the first ends. -/
theorem Finds.bind {dialogue : Dialogue (Except ε α)} {next : Except ε α → Dialogue (Except ε' β)}
    {mid : α → Prop} {post : β → Prop} (h : dialogue.Finds supply stock mid)
    (herror : ∀ error, (next (.error error)).Finds supply stock post)
    (hok : ∀ found, mid found → (next (.ok found)).Finds supply stock post) :
    (dialogue >>= next).Finds supply stock post := by
  refine Ensures.bind h ?_
  intro result after hr
  obtain ⟨rfl, hmid⟩ := hr
  cases result with
  | error error => exact herror error
  | ok found => exact hok found (hmid found rfl)

/-! ### Runs -/

/-- What a dialogue ensures holds when a handler that answers like a store runs it. -/
theorem Ensures.run {handler : Handler σ} {view : σ → Stock} (hh : handler.Serves supply view)
    {dialogue : Dialogue α} {state : σ} {post : α → Stock → Prop}
    (h : dialogue.Ensures supply (view state) post) :
    post (dialogue.run handler state).1 (view (dialogue.run handler state).2) := by
  induction dialogue generalizing state with
  | done result => exact h
  | ask call more ih => exact ih _ (h _ _ (hh call state))

end Dialogue

namespace Store

/-- A store answers like a store, also while failures are queued. -/
theorem handle_serves (supply : IdSupply) : (handle supply).Serves supply stock := by
  intro call store
  unfold handle
  cases hf : store.failures with
  | cons error failures => rfl
  | nil =>
      let counted : Store :=
        { store with counts := store.counts.bump call.operation, failures := [] }
      cases ha : answer supply counted call with
      | error error => simp only [counted, ha]; rfl
      | ok answered =>
          simp only [counted, ha]
          exact ⟨counted, answered.2, rfl, ha, rfl⟩

end Store

namespace Recorded

/-- The stock of a recorded store. -/
def stock (recorded : Recorded) : Stock :=
  recorded.store.stock

theorem disturb_eq_append (schedule : List (Nat × StoreError)) (recorded : Recorded) :
    recorded.disturb schedule = { recorded.store with
      failures := recorded.store.failures ++
        (schedule.filter fun due => due.1 = recorded.calls.length).map Prod.snd } := by
  suffices h : ∀ store : Store, schedule.foldl
      (fun store due => if due.1 = recorded.calls.length then store.failNext 1 due.2 else store)
      store = { store with
        failures := store.failures ++
          (schedule.filter fun due => due.1 = recorded.calls.length).map Prod.snd } from h _
  induction schedule with
  | nil =>
      intro store
      simp
  | cons due schedule ih =>
      intro store
      rw [List.foldl_cons, ih]
      by_cases hdue : due.1 = recorded.calls.length <;> simp [hdue, Store.failNext]

theorem disturb_stock (schedule : List (Nat × StoreError)) (recorded : Recorded) :
    (recorded.disturb schedule).stock = recorded.stock := by
  rw [disturb_eq_append]
  rfl

/-- A recorded store answers like a store, whichever calls are made to fail. -/
theorem handle_serves (supply : IdSupply) (schedule : List (Nat × StoreError)) :
    (handle supply schedule).Serves supply stock := by
  intro call recorded
  have h := Store.handle_serves supply call (recorded.disturb schedule)
  rw [disturb_stock] at h
  exact h

end Recorded

end Provenance
