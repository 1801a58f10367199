import Provenance.Proofs.Additions
import Provenance.Proofs.Course
import Provenance.Store.Retry

/-!
# Attempts that are lost

An attempt of a call is lost if it fails in a way that another attempt could mend.  A handler
stutters along another one if every attempt is either lost, and the other handler takes no step for
it, or it ends as a step of the other one does.  `Handler.Loses` says that the next attempts of a
call are all lost, and `Dialogue.Throughout` what holds at every call of a run.

* `Recorded.handle_stutters`: a store for which only failures of the transport are queued stutters
  along the one for which no failure is queued.
* `Dialogue.run_retrying`: if no call loses all its attempts, a run that attempts calls again is a
  run on the handler along which the one inside stutters.
* `Request.replay_retries`: retries are invisible to a replay.
-/

namespace Provenance

/-- The outcome is a failure that another attempt could mend. -/
def Call.isLost {call : Call} : call.Outcome → Bool
  | .ok _ => false
  | .error error => error.isTransient

namespace Handler

variable {σ τ : Type}

/-- The next `count` attempts of a call are lost. -/
def Loses (handler : Handler σ) (call : Call) : Nat → σ → Prop
  | 0, _ => True
  | count + 1, state =>
    Call.isLost (handler call state).1 = true ∧ handler.Loses call count (handler call state).2

instance decidableLoses (handler : Handler σ) (call : Call) :
    (count : Nat) → (state : σ) → Decidable (handler.Loses call count state)
  | 0, _ => isTrue trivial
  | count + 1, state =>
    @instDecidableAnd _ _ _ (handler.decidableLoses call count (handler call state).2)

/-- Along a relation of the states, an attempt ends like a step of another handler unless it is
lost, and if it is, the other handler takes no step. -/
def Stutters (handler : Handler σ) (other : Handler τ) (related : σ → τ → Prop) : Prop :=
  ∀ call state direct, related state direct →
    (Call.isLost (handler call state).1 = true ∧ related (handler call state).2 direct) ∨
      (Call.isLost (handler call state).1 = false ∧
        (handler call state).1 = (other call direct).1 ∧
        related (handler call state).2 (other call direct).2)

end Handler

/-- The waits for a span: none if it is empty. -/
def Delay.pauses (delay : Delay) : List Delay :=
  if 0 < delay then [delay] else []

namespace RetryPolicy

variable {σ τ : Type} {handler : Handler σ} {policy : RetryPolicy} {call : Call}

theorem attempts_of_not_isLost {waited : Waited σ}
    (h : Call.isLost (handler call waited.inner).1 = false) (left attempt : Nat) (delay : Delay) :
    policy.attempts handler call left attempt delay waited =
      ((handler call waited.inner).1, ⟨(handler call waited.inner).2, waited.delays⟩) := by
  rw [attempts]
  cases houtcome : (handler call waited.inner).1 with
  | ok answer => rfl
  | error error =>
      rw [houtcome] at h
      have htransient : ¬ error.isTransient = true := Bool.not_eq_true _ ▸ h
      simp only [if_neg htransient]

theorem attempts_of_isLost {waited : Waited σ}
    (h : Call.isLost (handler call waited.inner).1 = true) (left attempt : Nat) (delay : Delay) :
    policy.attempts handler call (left + 1) attempt delay waited =
      policy.attempts handler call left (attempt + 1) (delay.times policy.backoffFactor)
        ⟨(handler call waited.inner).2, waited.delays ++ delay.pauses⟩ := by
  rw [attempts]
  cases houtcome : (handler call waited.inner).1 with
  | ok answer =>
      rw [houtcome] at h
      cases h
  | error error =>
      rw [houtcome] at h
      have htransient : error.isTransient = true := h
      simp only [if_pos htransient, Delay.pauses]
      split <;> simp

theorem attempts_simulates {other : Handler τ} {related : σ → τ → Prop}
    (hh : handler.Stutters other related) {left attempt : Nat} {delay : Delay} {waited : Waited σ}
    {direct : τ} (hr : related waited.inner direct)
    (hl : ¬ handler.Loses call (left + 1) waited.inner) :
    (policy.attempts handler call left attempt delay waited).1 = (other call direct).1 ∧
      related (policy.attempts handler call left attempt delay waited).2.inner
        (other call direct).2 := by
  -- by induction on the attempts that are left; a lost one leaves the relation as it is
  induction left generalizing attempt delay waited with
  | zero =>
      rcases hh call waited.inner direct hr with ⟨hlost, _⟩ | ⟨hkept, houtcome, hrelated⟩
      · exact absurd ⟨hlost, trivial⟩ hl
      · rw [attempts_of_not_isLost hkept]
        exact ⟨houtcome, hrelated⟩
  | succ left ih =>
      rcases hh call waited.inner direct hr with ⟨hlost, hrelated⟩ | ⟨hkept, houtcome, hrelated⟩
      · rw [attempts_of_isLost hlost]
        exact ih hrelated fun hrest => hl ⟨hlost, hrest⟩
      · rw [attempts_of_not_isLost hkept]
        exact ⟨houtcome, hrelated⟩

end RetryPolicy

namespace Dialogue

variable {α σ τ : Type}

/-- At every call of a run `p` holds of the call and the state in which it is made. -/
def Throughout (handler : Handler σ) (p : Call → σ → Prop) : Dialogue α → σ → Prop
  | done _, _ => True
  | ask call next, state =>
    p call state ∧ (next (handler call state).1).Throughout handler p (handler call state).2

instance decidableThroughout (handler : Handler σ) (p : Call → σ → Prop)
    [∀ call state, Decidable (p call state)] :
    (dialogue : Dialogue α) → (state : σ) → Decidable (dialogue.Throughout handler p state)
  | done _, _ => isTrue trivial
  | ask call next, state =>
    @instDecidableAnd _ _ _
      (decidableThroughout handler p (next (handler call state).1) (handler call state).2)

/-- **Retries are invisible** to a run in which no call loses all its attempts. -/
theorem run_retrying {handler : Handler σ} {other : Handler τ} {related : σ → τ → Prop}
    (hh : handler.Stutters other related) (policy : RetryPolicy) {dialogue : Dialogue α}
    {waited : Waited σ} {direct : τ} (hr : related waited.inner direct)
    (hl : dialogue.Throughout (policy.retrying handler)
      (fun call waited => ¬ handler.Loses call (max policy.maxAttempts 1) waited.inner) waited) :
    (dialogue.run (policy.retrying handler) waited).1 = (dialogue.run other direct).1 ∧
      related (dialogue.run (policy.retrying handler) waited).2.inner
        (dialogue.run other direct).2 := by
  induction dialogue generalizing waited direct with
  | done result => exact ⟨rfl, hr⟩
  | ask call more ih =>
      obtain ⟨hcall, hrest⟩ := hl
      have hcount : max policy.maxAttempts 1 = policy.maxAttempts - 1 + 1 := by omega
      rw [hcount] at hcall
      obtain ⟨houtcome, hrelated⟩ :
          (policy.retrying handler call waited).1 = (other call direct).1 ∧
            related (policy.retrying handler call waited).2.inner (other call direct).2 :=
        RetryPolicy.attempts_simulates hh hr hcall
      have hmore := ih _ hrelated hrest
      rw [houtcome] at hmore
      simp only [run]
      rw [houtcome]
      exact hmore

theorem run_retrying_of_not_isLost {handler : Handler σ} {inv : σ → Prop}
    (hh : ∀ call state, inv state →
      Call.isLost (handler call state).1 = false ∧ inv (handler call state).2)
    (policy : RetryPolicy) (dialogue : Dialogue α) {waited : Waited σ} (hi : inv waited.inner) :
    dialogue.run (policy.retrying handler) waited =
      ((dialogue.run handler waited.inner).1,
        ⟨(dialogue.run handler waited.inner).2, waited.delays⟩) := by
  induction dialogue generalizing waited with
  | done result => rfl
  | ask call more ih =>
      obtain ⟨hkept, hi'⟩ := hh call waited.inner hi
      have hcall : policy.retrying handler call waited =
          ((handler call waited.inner).1, ⟨(handler call waited.inner).2, waited.delays⟩) :=
        RetryPolicy.attempts_of_not_isLost hkept _ _ _
      rw [run, hcall]
      exact ih _ hi'

end Dialogue

/-! ### Failures of a store -/

namespace Contents

theorem resolveAll_not_transient {contents : Contents} {seen : List BundleId} {specs : List String}
    {error : StoreError} (h : contents.resolveAll seen specs = .error error) :
    error.isTransient = false := by
  induction specs generalizing seen with
  | nil => cases h
  | cons spec specs ih =>
      rw [resolveAll] at h
      split at h
      · cases h
        rfl
      · split at h
        · exact ih h
        · split at h
          · exact ih h
          · cases hrest : contents.resolveAll (_ :: seen) specs with
            | ok found =>
                rw [hrest] at h
                cases h
            | error other =>
                rw [hrest] at h
                cases h
                exact ih hrest

end Contents

namespace Store

variable {supply : IdSupply} {store : Store} {call : Call}

theorem answer_not_transient {error : StoreError} (h : store.answer supply call = .error error) :
    error.isTransient = false := by
  cases call with
  | fetchBundles specs depth =>
      simp only [answer, Contents.fetchBundles] at h
      cases hfound : store.contents.resolveAll [] specs with
      | ok found =>
          rw [hfound] at h
          cases h
      | error other =>
          rw [hfound] at h
          cases h
          exact Contents.resolveAll_not_transient hfound
  | fetchBundle id =>
      simp only [answer, Contents.fetchBundle] at h
      split at h <;> cases h
      rfl
  | fetchWorksheetsByBundle id => cases h
  | fetchWorksheet id =>
      simp only [answer, Contents.fetchWorksheet] at h
      split at h <;> cases h
      rfl
  | createBundle description target placement =>
      simp only [answer, createBundle] at h
      split at h
      · cases h
        rfl
      · split at h <;> cases h
        rfl
  | createWorksheetItem item target =>
      simp only [answer, createWorksheetItem] at h
      split at h
      · cases h
        rfl
      · split at h <;> cases h
        rfl
  | searchBundles command keys => cases h

/-- The store is another one, for which no failure is queued, but for the counts of the calls and
for failures of the transport. -/
structure Troubled (store direct : Store) : Prop where
  same : ∃ counts failures, store = { direct with counts, failures }
  untroubled : direct.failures = []
  transient : ∀ error ∈ store.failures, error.isTransient = true

theorem handle_stutters (supply : IdSupply) :
    (handle supply).Stutters (handle supply) Troubled := by
  rintro call _ ⟨contents, directCounts, _, made, items, allocated⟩
    ⟨⟨counts, failures, rfl⟩, rfl, htransient⟩
  cases failures with
  | cons error failures =>
      refine .inl ⟨htransient error List.mem_cons_self, ⟨_, _, rfl⟩, rfl, ?_⟩
      exact fun other ho => htransient other (List.mem_cons_of_mem _ ho)
  | nil =>
      have hanswer := answer_with supply
        ⟨contents, directCounts.bump call.operation, [], made, items, allocated⟩ call
        (counts.bump call.operation) []
      simp only [handle]
      cases hdirect : answer supply
          ⟨contents, directCounts.bump call.operation, [], made, items, allocated⟩ call with
      | error error =>
          rw [hdirect] at hanswer
          rw [hanswer]
          exact .inr ⟨answer_not_transient hdirect, rfl, ⟨_, _, rfl⟩, rfl, List.forall_mem_nil _⟩
      | ok answered =>
          rw [hdirect] at hanswer
          rw [hanswer]
          exact .inr ⟨rfl, rfl, ⟨_, _, rfl⟩, answer_failures hdirect, List.forall_mem_nil _⟩

theorem handle_not_isLost (supply : IdSupply) (call : Call)
    (h : ∀ error ∈ store.failures, error.isTransient = false) :
    Call.isLost (handle supply call store).1 = false ∧
      ∀ error ∈ (handle supply call store).2.failures, error.isTransient = false := by
  obtain ⟨contents, counts, failures, made, items, allocated⟩ := store
  cases failures with
  | cons error failures =>
      exact ⟨h error List.mem_cons_self, fun other ho => h other (List.mem_cons_of_mem _ ho)⟩
  | nil =>
      simp only [handle]
      cases hanswer : answer supply
          ⟨contents, counts.bump call.operation, [], made, items, allocated⟩ call with
      | error error => exact ⟨answer_not_transient hanswer, List.forall_mem_nil _⟩
      | ok answered =>
          refine ⟨rfl, ?_⟩
          simp only [answer_failures hanswer]
          exact List.forall_mem_nil _

end Store

namespace Recorded

variable {schedule : List (Nat × StoreError)} {recorded : Recorded}

theorem disturb_forall {p : StoreError → Prop} (hs : ∀ due ∈ schedule, p due.2)
    (hq : ∀ error ∈ recorded.store.failures, p error) :
    ∀ error ∈ (recorded.disturb schedule).failures, p error := by
  intro error he
  rw [disturb_eq_append] at he
  rcases List.mem_append.mp he with he | he
  · exact hq error he
  · obtain ⟨due, hdue, rfl⟩ := List.mem_map.mp he
    exact hs due (List.mem_filter.mp hdue).1

theorem handle_stutters (supply : IdSupply) (hs : ∀ due ∈ schedule, due.2.isTransient = true) :
    (handle supply schedule).Stutters (Store.handle supply)
      fun recorded direct => recorded.store.Troubled direct := by
  rintro call recorded direct ⟨⟨counts, failures, hsame⟩, hnone, htransient⟩
  obtain ⟨queued, hdisturb⟩ := disturb_eq schedule recorded
  refine Store.handle_stutters supply call (recorded.disturb schedule) direct ⟨?_, hnone, ?_⟩
  · rw [hdisturb, hsame]
    exact ⟨counts, queued, rfl⟩
  · exact disturb_forall hs htransient

theorem handle_not_isLost (supply : IdSupply) (hs : ∀ due ∈ schedule, due.2.isTransient = false)
    (call : Call) (hq : ∀ error ∈ recorded.store.failures, error.isTransient = false) :
    Call.isLost (handle supply schedule call recorded).1 = false ∧
      ∀ error ∈ (handle supply schedule call recorded).2.store.failures,
        error.isTransient = false :=
  Store.handle_not_isLost supply call (disturb_forall hs hq)

end Recorded

/-! ### The whole replay -/

namespace Request

/-- **Retries are invisible to a replay.**  Let only failures of the transport be queued or scheduled,
and let no call lose all the attempts that the policy allows.  Then the result is the one without any
failures, and so is the store, but for the counts of the calls and the failures that are still queued:
nothing is created twice, and nothing is missing. -/
theorem replay_retries (request : Request) (supply : IdSupply) (policy : RetryPolicy)
    (schedule : List (Nat × StoreError)) (waited : Waited Recorded)
    (hq : ∀ error ∈ waited.inner.store.failures, error.isTransient = true)
    (hs : ∀ due ∈ schedule, due.2.isTransient = true)
    (hl : request.replay.Throughout (policy.retrying (Recorded.handle supply schedule))
      (fun call waited => ¬ (Recorded.handle supply schedule).Loses call
        (max policy.maxAttempts 1) waited.inner) waited) :
    let retried := request.replay.run (policy.retrying (Recorded.handle supply schedule)) waited
    let direct := request.replay.run (Store.handle supply)
      { waited.inner.store with failures := [] }
    retried.1 = direct.1 ∧
      ∃ counts failures, retried.2.inner.store = { direct.2 with counts, failures } := by
  intro retried direct
  have htroubled : waited.inner.store.Troubled { waited.inner.store with failures := [] } :=
    ⟨⟨_, _, rfl⟩, rfl, hq⟩
  obtain ⟨hresult, hrelated⟩ :=
    Dialogue.run_retrying (Recorded.handle_stutters supply hs) policy htroubled hl
  exact ⟨hresult, hrelated.same⟩

/-- While the diamond is replayed, three attempts are lost, two of them of one call. -/
theorem diamond_retries :
    let policy := RetryPolicy.immediate 3
    let lossy := Recorded.handle Stock.strokes
      [(1, .transport "lost"), (9, .transport "lost"), (10, .transport "lost")]
    let retried := (diamond (some "eval")).replay.run (policy.retrying lossy)
      ⟨.ofStore Store.diamond, []⟩
    let direct := (diamond (some "eval")).replay.run (Store.handle Stock.strokes) Store.diamond
    (diamond (some "eval")).replay.Throughout (policy.retrying lossy)
        (fun call waited => ¬ lossy.Loses call 3 waited.inner) ⟨.ofStore Store.diamond, []⟩ ∧
      retried.2.inner.calls.length = 17 ∧
      retried.1 = direct.1 ∧ retried.2.inner.store.contents = direct.2.contents := by
  intro policy lossy retried direct
  have hlosses : (diamond (some "eval")).replay.Throughout (policy.retrying lossy)
      (fun call waited => ¬ lossy.Loses call 3 waited.inner) ⟨.ofStore Store.diamond, []⟩ := by
    decide +kernel
  have hcalls : retried.2.inner.calls.length = 17 := by decide +kernel
  obtain ⟨hresult, _, _, hstore⟩ := replay_retries (diamond (some "eval")) Stock.strokes policy _
    ⟨.ofStore Store.diamond, []⟩ (by decide) (by decide) hlosses
  exact ⟨hlosses, hcalls, hresult, (congrArg Store.contents hstore).trans rfl⟩

end Request

end Provenance
