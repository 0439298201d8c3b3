import Flotilla.Retry.Seconds

/-!
# Retry policies

A policy says how often something may be tried in all and how long to wait before each further
attempt.
-/

namespace Flotilla

/-- How long to wait between attempts. -/
inductive Backoff where
  /-- Not at all. -/
  | none
  /-- The same span each time. -/
  | fixed (delay : Nat)
  /-- `initial` after the first failure, then `factor` times as long each time, never longer
  than `max`. The factor is the double with these bits. -/
  | exponential (initial max : Nat) (factor : UInt64)
  deriving DecidableEq, Repr

namespace Backoff

/-- The bits of the factor two. -/
def two : UInt64 := 0x4000000000000000

/-- From this exponent on the growth of the delay stops. -/
def lastExponent : Nat := 30

/-- The wait after `failures` failures in a row. -/
def delay (backoff : Backoff) (failures : UInt32) : Nat :=
  match backoff with
  | .none => 0
  | .fixed delay => delay
  | .exponential initial max factor =>
    if failures = 0 then 0
    else
      let exponent := min (failures.toNat - 1) lastExponent
      let seconds := Seconds.ofNanos initial * Seconds.power (Float.ofBits factor) exponent
      if seconds.isNaN || seconds ≤ 0.0 then 0
      else if Seconds.ofNanos max ≤ seconds then max
      else Seconds.toNanos seconds

end Backoff

/-- How often to try, and how long to wait in between. -/
structure RetryPolicy where
  /-- All attempts, the first one included. -/
  maxAttempts : UInt32
  /-- The wait before each further attempt. -/
  backoff : Backoff
  deriving DecidableEq, Repr

namespace RetryPolicy

/-- A policy with at least one attempt. -/
def new (maxAttempts : UInt32) (backoff : Backoff) : RetryPolicy :=
  ⟨if maxAttempts = 0 then 1 else maxAttempts, backoff⟩

/-- One attempt and no more. -/
def once : RetryPolicy := ⟨1, .none⟩

/-- Three attempts, waiting 100 ms and then twice as long each time, at most 5 s. -/
def standard : RetryPolicy :=
  ⟨3, .exponential (Nanos.ofMillis 100) (Nanos.ofMillis 5000) Backoff.two⟩

instance : Inhabited RetryPolicy := ⟨standard⟩

/-- Whether another attempt may follow `attempts` of them. -/
def allowsAnother (policy : RetryPolicy) (attempts : UInt32) : Bool := attempts < policy.maxAttempts

/-- The wait before the attempt that follows `attempts` failures. -/
def delayAfter (policy : RetryPolicy) (attempts : UInt32) : Nat := policy.backoff.delay attempts

end RetryPolicy

end Flotilla
