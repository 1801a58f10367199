import Provenance.Store.Call
import Provenance.Word

/-!
# Trying again

A `RetryPolicy` says how often a call is attempted while the transport fails, and how long to wait
between attempts.  `RetryPolicy.retrying` turns a handler into one that attempts every call that
way; its state also keeps the delays that were waited for, so that nothing really waits here.

The delays of a policy grow up to the longest span there is.  How long it takes to wait for one
(`Delay.wait`) is up to the timer, not to the policy: it lets no single wait last longer than thirty
years, whether or not it could count to its end.
-/

namespace Provenance

/-- A span of time, in nanoseconds. -/
abbrev Delay := Nat

namespace Delay

/-- The longest span: as many seconds as 64 bits hold, and a second less a nanosecond. -/
def longest : Delay :=
  mostOfBits 64 * 1000000000 + 999999999

/-- A span of whole milliseconds. -/
def ofMillis (millis : Nat) : Delay :=
  millis * 1000000

/-- The whole milliseconds of a span. -/
def toMillis (delay : Delay) : Nat :=
  delay / 1000000

/-- A multiple of a span, or the longest span if that is shorter. -/
def times (delay : Delay) (factor : Nat) : Delay :=
  min (delay * factor) longest

/-- The longest time for which the timer waits: thirty years of 365 days. -/
def longestWait : Delay :=
  30 * 365 * 24 * 60 * 60 * 1000000000

/-- The time that the timer takes to wait for a span. -/
def wait (delay : Delay) : Delay :=
  min delay longestWait

end Delay

/-- How a call is attempted again. -/
structure RetryPolicy where
  /-- All attempts of a call, the first one included; zero counts as one. -/
  maxAttempts : Nat
  /-- The delay before the second attempt. -/
  initialDelay : Delay
  /-- What the delay is multiplied by after each attempt. -/
  backoffFactor : Nat
deriving DecidableEq

/-- The parts of a policy that are set elsewhere. -/
structure RetrySettings where
  maxAttempts : Option Nat
  initialDelayMillis : Option Nat
  backoffFactor : Option Nat
deriving DecidableEq

/-- What a handler that attempts calls again keeps: the state of the handler inside, and the delays
waited for so far, in order. -/
structure Waited (σ : Type) where
  inner : σ
  delays : List Delay

/-- The time that passed in waiting. -/
def Waited.elapsed {σ : Type} (waited : Waited σ) : Delay :=
  waited.delays.foldr (fun delay rest => delay.wait + rest) 0

namespace RetryPolicy

/-- Two attempts, a second apart. -/
def standard : RetryPolicy :=
  ⟨2, .ofMillis 1000, 2⟩

/-- A policy that never waits. -/
def immediate (maxAttempts : Nat) : RetryPolicy :=
  ⟨maxAttempts, 0, 1⟩

/-- The policy with some parts replaced. -/
def merge (policy : RetryPolicy) (settings : RetrySettings) : RetryPolicy where
  maxAttempts := settings.maxAttempts.getD policy.maxAttempts
  initialDelay := (settings.initialDelayMillis.map Delay.ofMillis).getD policy.initialDelay
  backoffFactor := settings.backoffFactor.getD policy.backoffFactor

variable {σ : Type}

/-- Attempts a call for the `attempt`-th time, with `left` attempts after it. -/
def attempts (policy : RetryPolicy) (handler : Handler σ) (call : Call) :
    (left attempt : Nat) → Delay → Waited σ → call.Outcome × Waited σ
  | left, attempt, delay, state =>
    let answered := handler call state.inner
    let after : Waited σ := { state with inner := answered.2 }
    match answered.1 with
    | .ok answer => (.ok answer, after)
    | .error error =>
      if error.isTransient then
        match left with
        | 0 => (.error (.retriesExhausted call.operation.name attempt error), after)
        | left + 1 =>
          let waited := if 0 < delay then after.delays ++ [delay] else after.delays
          policy.attempts handler call left (attempt + 1) (delay.times policy.backoffFactor)
            { after with delays := waited }
      else (.error error, after)

/-- The handler that attempts every call as the policy says. -/
def retrying (policy : RetryPolicy) (handler : Handler σ) : Handler (Waited σ) :=
  fun call state =>
    policy.attempts handler call (policy.maxAttempts - 1) 1 policy.initialDelay state

end RetryPolicy

end Provenance
