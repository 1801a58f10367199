import Mathlib.Algebra.GroupWithZero.Nat
import Provenance.Proofs.Retrying

/-!
# The course of a call that is attempted again

`RetryPolicy.loop` attempts a call in a loop that counts its attempts up, in a word of 32 bits, and
has no result if the count does not fit.  It also lists what happened: the attempts and the waits, in
order.

* `RetryPolicy.loop_agrees`: the count always fits, and the loop ends as `RetryPolicy.retrying` does.
* `RetryPolicy.retrying_ends`: which attempt is the last one, what it ends with, and how long the
  waits before it are, for every policy and every sequence of outcomes.
* `RetryPolicy.Ends.elapsed_eq`: the time that passes in these waits.
-/

namespace Provenance

theorem Call.isLost_iff {call : Call} {outcome : call.Outcome} :
    Call.isLost outcome = true ↔ ∃ reason, outcome = .error (.transport reason) := by
  constructor
  · intro h
    match outcome, h with
    | .error (.transport reason), _ => exact ⟨reason, rfl⟩
  · rintro ⟨reason, rfl⟩
    rfl

namespace Handler

variable {σ : Type}

/-- The state after a call was made `count` times. -/
def again (handler : Handler σ) (call : Call) : Nat → σ → σ
  | 0, state => state
  | count + 1, state => handler.again call count (handler call state).2

/-- The outcome of a call that was made `count` times before. -/
def outcomeAt (handler : Handler σ) (call : Call) (count : Nat) (state : σ) : call.Outcome :=
  (handler call (handler.again call count state)).1

theorem again_succ (handler : Handler σ) (call : Call) (count : Nat) (state : σ) :
    handler.again call (count + 1) state = (handler call (handler.again call count state)).2 := by
  induction count generalizing state with
  | zero => rfl
  | succ count ih => exact ih _

end Handler

/-- A step of a call that is attempted again. -/
inductive Move (call : Call) where
  /-- The call is made, and ends so. -/
  | attempt (outcome : call.Outcome)
  /-- The call is not made for some time. -/
  | wait (delay : Delay)

namespace Move

variable {call : Call}

/-- The length of a wait. -/
def delay? : Move call → Option Delay
  | attempt _ => none
  | wait delay => some delay

@[simp] theorem delay?_attempt (outcome : call.Outcome) : (attempt outcome).delay? = none := rfl

@[simp] theorem delay?_wait (delay : Delay) : (wait delay : Move call).delay? = some delay := rfl

end Move

/-- What a call that was attempted again came to: its steps in order, the outcome, and the state of
the handler. -/
structure Episode (σ : Type) (call : Call) where
  moves : List (Move call)
  outcome : call.Outcome
  state : σ

/-- The episode with some steps before it. -/
def Episode.behind {σ : Type} {call : Call} (moves : List (Move call)) (episode : Episode σ call) :
    Episode σ call :=
  { episode with moves := moves ++ episode.moves }

theorem Episode.behind_comp {σ : Type} {call : Call} (moves more : List (Move call)) :
    (behind moves ∘ behind more : Episode σ call → Episode σ call) = behind (moves ++ more) := by
  funext episode
  simp [behind]

namespace RetryPolicy

variable {σ : Type} {policy : RetryPolicy} {handler : Handler σ} {call : Call}

/-- The attempts of a call that the policy allows. -/
def limit (policy : RetryPolicy) : Nat :=
  max policy.maxAttempts 1

/-- The delay that is left after `count` more attempts. -/
def backoff (policy : RetryPolicy) (count : Nat) (delay : Delay) : Delay :=
  (fun delay : Delay => delay.times policy.backoffFactor)^[count] delay

/-- The waits between `count` attempts and one more. -/
def pauses (policy : RetryPolicy) (count : Nat) (delay : Delay) : List Delay :=
  (List.range count).flatMap fun i => (policy.backoff i delay).pauses

/-- `count` attempts, each with the wait after it. -/
def moves (policy : RetryPolicy) (handler : Handler σ) (call : Call) (count : Nat) (delay : Delay)
    (state : σ) : List (Move call) :=
  (List.range count).flatMap fun i =>
    .attempt (handler.outcomeAt call i state) :: (policy.backoff i delay).pauses.map .wait

/-- Attempts a call for the `attempt`-th time, and again while it is lost and not the last time.
There is no result if the count of the attempts does not fit into 32 bits. -/
def loop (policy : RetryPolicy) (handler : Handler σ) (call : Call) (attempt : Nat) (delay : Delay)
    (state : σ) : Option (Episode σ call) :=
  let answered := handler call state
  let made := Move.attempt answered.1
  match answered.1 with
  | .ok answer => some ⟨[made], .ok answer, answered.2⟩
  | .error error =>
    if error.isTransient = false then some ⟨[made], .error error, answered.2⟩
    else if policy.limit ≤ attempt then
      some ⟨[made], .error (.retriesExhausted call.operation.name attempt error), answered.2⟩
    else if attempt + 1 ≤ mostOfBits 32 then
      (policy.loop handler call (attempt + 1) (delay.times policy.backoffFactor) answered.2).map
        (.behind (made :: delay.pauses.map .wait))
    else none
termination_by policy.limit - attempt

/-! ### One attempt -/

theorem loop_of_not_isLost {state : σ} (h : Call.isLost (handler call state).1 = false)
    (attempt : Nat) (delay : Delay) :
    policy.loop handler call attempt delay state =
      some ⟨[.attempt (handler call state).1], (handler call state).1, (handler call state).2⟩ := by
  rw [loop]
  cases houtcome : (handler call state).1 with
  | ok answer => rfl
  | error error =>
      rw [houtcome] at h
      have hkept : error.isTransient = false := h
      simp only [if_pos hkept]

theorem loop_of_limit_le {state : σ} {error : StoreError} {attempt : Nat}
    (houtcome : (handler call state).1 = .error error) (h : error.isTransient = true)
    (ha : policy.limit ≤ attempt) (delay : Delay) :
    policy.loop handler call attempt delay state =
      some ⟨[.attempt (.error error)],
        .error (.retriesExhausted call.operation.name attempt error), (handler call state).2⟩ := by
  rw [loop]
  simp [houtcome, h, ha]

theorem succ_le_mostOfBits {attempt : Nat} (hm : policy.maxAttempts ≤ mostOfBits 32)
    (ha : attempt < policy.limit) : attempt + 1 ≤ mostOfBits 32 := by
  have hone : 1 ≤ mostOfBits 32 := by decide
  unfold limit at ha
  omega

theorem loop_of_isLost {state : σ} {attempt : Nat}
    (h : Call.isLost (handler call state).1 = true) (hm : policy.maxAttempts ≤ mostOfBits 32)
    (ha : attempt < policy.limit) (delay : Delay) :
    policy.loop handler call attempt delay state =
      (policy.loop handler call (attempt + 1) (delay.times policy.backoffFactor)
        (handler call state).2).map
        (.behind (.attempt (handler call state).1 :: delay.pauses.map .wait)) := by
  rw [loop]
  cases houtcome : (handler call state).1 with
  | ok answer =>
      rw [houtcome] at h
      cases h
  | error error =>
      rw [houtcome] at h
      have htransient : ¬ error.isTransient = false := Bool.not_eq_false _ ▸ h
      simp only [if_neg htransient, if_neg (Nat.not_le.mpr ha), if_pos (succ_le_mostOfBits hm ha)]

/-! ### The loop and the handler -/

theorem agrees_of_not_isLost {waited : Waited σ}
    (h : Call.isLost (handler call waited.inner).1 = false) (left attempt : Nat) (delay : Delay) :
    ∃ episode, policy.loop handler call attempt delay waited.inner = some episode ∧
      policy.attempts handler call left attempt delay waited =
        (episode.outcome,
          ⟨episode.state, waited.delays ++ episode.moves.filterMap Move.delay?⟩) := by
  refine ⟨_, loop_of_not_isLost h attempt delay, ?_⟩
  rw [attempts_of_not_isLost h]
  simp [Move.delay?]

/-- **The count of the attempts never overflows**, and the loop ends as the attempts that are counted
down do: with the same outcome and state, having waited for the delays that it lists. -/
theorem loop_agrees (hm : policy.maxAttempts ≤ mostOfBits 32) {left attempt : Nat}
    (ha : attempt + left = policy.limit) (delay : Delay) (waited : Waited σ) :
    ∃ episode, policy.loop handler call attempt delay waited.inner = some episode ∧
      policy.attempts handler call left attempt delay waited =
        (episode.outcome,
          ⟨episode.state, waited.delays ++ episode.moves.filterMap Move.delay?⟩) := by
  induction left generalizing attempt delay waited with
  | zero =>
      cases hlost : Call.isLost (handler call waited.inner).1 with
      | false => exact agrees_of_not_isLost hlost 0 attempt delay
      | true =>
          obtain ⟨reason, houtcome⟩ := Call.isLost_iff.mp hlost
          have hlast : policy.limit ≤ attempt := by omega
          refine ⟨_, loop_of_limit_le houtcome rfl hlast delay, ?_⟩
          rw [attempts]
          simp [houtcome, StoreError.isTransient, Move.delay?]
  | succ left ih =>
      cases hlost : Call.isLost (handler call waited.inner).1 with
      | false => exact agrees_of_not_isLost hlost (left + 1) attempt delay
      | true =>
          have hroom : attempt < policy.limit := by omega
          have hnext : attempt + 1 + left = policy.limit := by omega
          obtain ⟨episode, hloop, hattempts⟩ := ih hnext
            (delay.times policy.backoffFactor)
            ⟨(handler call waited.inner).2, waited.delays ++ delay.pauses⟩
          refine ⟨_, by rw [loop_of_isLost hlost hm hroom, hloop]; rfl, ?_⟩
          rw [attempts_of_isLost hlost, hattempts]
          simp [Episode.behind, List.filterMap_cons, Function.comp_def]

/-! ### All attempts -/

theorem backoff_succ (count : Nat) (delay : Delay) :
    policy.backoff (count + 1) delay = policy.backoff count (delay.times policy.backoffFactor) :=
  rfl

theorem backoff_eq_min (count : Nat) {delay : Delay} (h : delay ≤ Delay.longest) :
    policy.backoff count delay = min (delay * policy.backoffFactor ^ count) Delay.longest := by
  generalize hlongest : Delay.longest = longest at h
  induction count generalizing delay with
  | zero => simp [backoff, Nat.min_eq_left h]
  | succ count ih =>
      have htimes : delay.times policy.backoffFactor = min (delay * policy.backoffFactor) longest := by
        rw [Delay.times, hlongest]
      rw [backoff_succ, htimes, ih (Nat.min_le_right _ _), Nat.pow_succ']
      cases hfactor : policy.backoffFactor with
      | zero => simp
      | succ factor =>
          have hgrows : longest ≤ longest * (factor + 1) ^ count :=
            Nat.le_mul_of_pos_right _ (Nat.pow_pos (Nat.succ_pos factor))
          rw [← Nat.mul_min_mul_right, Nat.mul_assoc, Nat.min_assoc, Nat.min_eq_right hgrows]

theorem moves_succ (count : Nat) (delay : Delay) (state : σ) :
    policy.moves handler call (count + 1) delay state =
      (.attempt (handler call state).1 :: delay.pauses.map .wait) ++
        policy.moves handler call count (delay.times policy.backoffFactor)
          (handler call state).2 := by
  simp only [moves, List.range_succ_eq_map, List.flatMap_cons, List.flatMap_map]
  rfl

theorem filterMap_delay?_moves (count : Nat) (delay : Delay) (state : σ) :
    (policy.moves handler call count delay state).filterMap Move.delay? =
      policy.pauses count delay := by
  simp [moves, pauses, List.filterMap_flatMap, List.filterMap_cons, Function.comp_def]

/-- As long as attempts are lost and more are allowed, the loop goes round. -/
theorem loop_of_loses (hm : policy.maxAttempts ≤ mostOfBits 32) {count attempt : Nat}
    (ha : attempt + count ≤ policy.limit) (delay : Delay) {state : σ}
    (hl : ∀ i < count, Call.isLost (handler.outcomeAt call i state) = true) :
    policy.loop handler call attempt delay state =
      (policy.loop handler call (attempt + count) (policy.backoff count delay)
        (handler.again call count state)).map (.behind (policy.moves handler call count delay state)) := by
  induction count generalizing attempt delay state with
  | zero =>
      have hnone : Episode.behind (policy.moves handler call 0 delay state) =
          (id : Episode σ call → Episode σ call) := rfl
      rw [hnone, Option.map_id]
      rfl
  | succ count ih =>
      have hroom : attempt < policy.limit := by omega
      have hrest : ∀ i < count, Call.isLost (handler.outcomeAt call i (handler call state).2) = true :=
        fun i hi => hl (i + 1) (by omega)
      have hfirst : Call.isLost (handler call state).1 = true := hl 0 (Nat.zero_lt_succ _)
      rw [loop_of_isLost hfirst hm hroom, ih (by omega) _ hrest, Option.map_map,
        Episode.behind_comp, ← moves_succ, ← backoff_succ, Nat.add_right_comm attempt 1 count]
      rfl

/-- A call ends with its attempt number `count + 1`: this is what the loop lists, and this is how the
handler that attempts calls again answers. -/
structure Ends (policy : RetryPolicy) (handler : Handler σ) (call : Call) (waited : Waited σ)
    (count : Nat) (outcome : call.Outcome) : Prop where
  loop : policy.loop handler call 1 policy.initialDelay waited.inner =
    some ⟨policy.moves handler call count policy.initialDelay waited.inner ++
      [.attempt (handler.outcomeAt call count waited.inner)], outcome,
      handler.again call (count + 1) waited.inner⟩
  retrying : policy.retrying handler call waited =
    (outcome, ⟨handler.again call (count + 1) waited.inner,
      waited.delays ++ policy.pauses count policy.initialDelay⟩)

/-- What the last turn of the loop comes to is what the whole call comes to. -/
theorem Ends.of_loop (hm : policy.maxAttempts ≤ mostOfBits 32) {count : Nat}
    (hc : count < policy.limit) {waited : Waited σ} {outcome : call.Outcome}
    (hl : ∀ i < count, Call.isLost (handler.outcomeAt call i waited.inner) = true)
    (h : policy.loop handler call (1 + count) (policy.backoff count policy.initialDelay)
      (handler.again call count waited.inner) =
        some ⟨[.attempt (handler.outcomeAt call count waited.inner)], outcome,
          handler.again call (count + 1) waited.inner⟩) :
    policy.Ends handler call waited count outcome := by
  have hroom : 1 + count ≤ policy.limit := by omega
  have hloop := loop_of_loses hm hroom policy.initialDelay hl
  rw [h] at hloop
  have hcount : 1 + (policy.maxAttempts - 1) = policy.limit := by
    unfold limit
    omega
  obtain ⟨episode, hepisode, hretrying⟩ : ∃ episode,
      policy.loop handler call 1 policy.initialDelay waited.inner = some episode ∧ _ :=
    loop_agrees hm hcount policy.initialDelay waited
  rw [hepisode] at hloop
  obtain rfl := Option.some.inj hloop
  refine ⟨hepisode, hretrying.trans ?_⟩
  simp [Episode.behind, filterMap_delay?_moves, Move.delay?]

/-- **Attempts and waits.**  For every policy, every handler and every call: if one of the first
attempts that the policy allows is not lost, the call ends with the first such attempt, as that
attempt does; else it ends with the last attempt that is allowed, and says so.  The waits are between
these attempts, each of them the delay of the policy, multiplied once for every attempt but the first.
A failure that already reports exhausted attempts is not met with another attempt. -/
theorem retrying_ends (policy : RetryPolicy) (handler : Handler σ) (call : Call)
    (waited : Waited σ) (hm : policy.maxAttempts ≤ mostOfBits 32) :
    let outcome := fun count => handler.outcomeAt call count waited.inner
    let Fails := fun count => ∃ reason, outcome count = .error (.transport reason)
    (∀ count < policy.limit, (∀ i < count, Fails i) → ¬ Fails count →
      policy.Ends handler call waited count (outcome count)) ∧
    ((∀ i < policy.limit, Fails i) →
      ∃ error, outcome (policy.limit - 1) = .error error ∧
        policy.Ends handler call waited (policy.limit - 1)
          (.error (.retriesExhausted call.operation.name policy.limit error))) ∧
    (∀ count < policy.limit, (∀ i < count, Fails i) → ∀ operation attempts last,
      outcome count = .error (.retriesExhausted operation attempts last) →
        policy.Ends handler call waited count
          (.error (.retriesExhausted operation attempts last))) := by
  intro outcome Fails
  have hkept : ∀ count < policy.limit, (∀ i < count, Fails i) → ¬ Fails count →
      policy.Ends handler call waited count (outcome count) := by
    intro count hc hl hn
    have hlost : Call.isLost (outcome count) = false := by
      rw [← Bool.not_eq_true, Call.isLost_iff]
      exact hn
    apply Ends.of_loop hm hc fun i hi => Call.isLost_iff.mpr (hl i hi)
    rw [Handler.again_succ]
    exact loop_of_not_isLost hlost _ _
  refine ⟨hkept, ?_, ?_⟩
  · intro hl
    have hlimit : 1 + (policy.limit - 1) = policy.limit := by
      unfold limit
      omega
    obtain ⟨reason, houtcome⟩ := hl (policy.limit - 1) (by omega)
    refine ⟨_, houtcome, Ends.of_loop hm (by omega)
      (fun i hi => Call.isLost_iff.mpr (hl i (by omega))) ?_⟩
    rw [hlimit, Handler.again_succ]
    have hlast := loop_of_limit_le houtcome rfl (Nat.le_refl policy.limit)
      (policy.backoff (policy.limit - 1) policy.initialDelay)
    rw [hlast, ← houtcome]
  · intro count hc hl operation attempts last houtcome
    rw [← houtcome]
    apply hkept count hc hl
    rintro ⟨reason, htransport⟩
    rw [houtcome] at htransport
    cases htransport

/-- Two attempts are lost, and after waits of five and ten the third one, which is the last that is
allowed, meets a store without the bundle. -/
theorem fetch_ends_third :
    let policy : RetryPolicy := ⟨3, 5, 2⟩
    let lossy : Store := { Store.diamond with failures := [.transport "lost", .transport "late"] }
    let call := Call.fetchBundle "0xmissing"
    policy.maxAttempts ≤ mostOfBits 32 ∧
      policy.Ends (Store.handle Stock.strokes) call ⟨lossy, []⟩ 2
        (.error (.noBundle "0xmissing")) ∧
      policy.pauses 2 policy.initialDelay = [5, 10] := by
  intro policy lossy call
  have hm : policy.maxAttempts ≤ mostOfBits 32 := by decide
  have hlost : ∀ i < 2,
      Call.isLost ((Store.handle Stock.strokes).outcomeAt call i lossy) = true := by decide
  refine ⟨hm, ?_, by decide⟩
  apply (retrying_ends policy (Store.handle Stock.strokes) call ⟨lossy, []⟩ hm).1 2 (by decide)
  · exact fun i hi => Call.isLost_iff.mp (hlost i hi)
  · rintro ⟨reason, houtcome⟩
    cases houtcome

/-! ### The time that passes -/

theorem elapsed_append {inner other : σ} (delays more : List Delay) :
    (Waited.mk inner (delays ++ more)).elapsed =
      (Waited.mk inner delays).elapsed + (Waited.mk other more).elapsed := by
  induction delays with
  | nil => exact (Nat.zero_add _).symm
  | cons delay delays ih =>
      have hrest : (Waited.mk inner (delay :: (delays ++ more))).elapsed =
          delay.wait + (Waited.mk inner (delays ++ more)).elapsed := rfl
      rw [List.cons_append, hrest, ih, ← Nat.add_assoc]
      rfl

/-- Waiting for nothing takes no time, so it does not matter whether it is done. -/
theorem elapsed_pauses (inner : σ) (delay : Delay) :
    (Waited.mk inner delay.pauses).elapsed = delay.wait := by
  unfold Delay.pauses
  split
  · rfl
  · rename_i hnone
    obtain rfl := Nat.eq_zero_of_not_pos hnone
    rfl

theorem wait_backoff (count : Nat) {delay : Delay} (h : delay ≤ Delay.longest) :
    (policy.backoff count delay).wait =
      min (delay * policy.backoffFactor ^ count) Delay.longestWait := by
  have hlongest : Delay.longestWait ≤ Delay.longest := by decide
  rw [backoff_eq_min count h, Delay.wait, Nat.min_assoc, Nat.min_eq_right hlongest]

/-- **The time that a call waits for**, when it ends with its attempt number `count + 1`: the delay of
the policy, multiplied once more for each next attempt, but each time no longer than the longest
wait. -/
theorem Ends.elapsed_eq {waited : Waited σ} {count : Nat} {outcome : call.Outcome}
    (h : policy.Ends handler call waited count outcome) (hd : policy.initialDelay ≤ Delay.longest) :
    (policy.retrying handler call waited).2.elapsed = waited.elapsed +
      ((List.range count).map fun i =>
        min (policy.initialDelay * policy.backoffFactor ^ i) Delay.longestWait).sum := by
  have hpauses : ∀ attempts : List Nat,
      (Waited.mk waited.inner (attempts.flatMap fun i =>
        (policy.backoff i policy.initialDelay).pauses)).elapsed =
      (attempts.map fun i =>
        min (policy.initialDelay * policy.backoffFactor ^ i) Delay.longestWait).sum := by
    intro attempts
    induction attempts with
    | nil => rfl
    | cons i attempts ih =>
        rw [List.flatMap_cons, elapsed_append, elapsed_pauses, wait_backoff i hd, ih, List.map_cons,
          List.sum_cons]
  rw [h.retrying, ← hpauses (List.range count)]
  exact elapsed_append waited.delays _

end RetryPolicy

end Provenance
