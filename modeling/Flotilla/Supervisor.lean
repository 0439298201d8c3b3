import Flotilla.Deadline

/-!
# The deadline supervisor

One task watches over all deadlines. It fires what is due and then sleeps until the earliest
deadline that is left, or for good when there is none; scheduling a deadline leaves a call that
wakes it. Deadlines are rounded up to whole ticks since the supervisor was made, so that many of
them fall together.
-/

namespace Flotilla

/-- The longest time that a deadline may be away: thirty years. -/
def maxTimeout : Nat := Nanos.ofSeconds (86400 * 365 * 30)

/-- The deadlines and the task that watches over them. -/
structure Supervisor (α : Type) where
  /-- The length of a tick; 0 for none. -/
  granularity : Nat
  /-- When it was made. -/
  origin : Nat
  /-- The deadlines. -/
  queue : DeadlineQueue α
  /-- Whether the task has been called and has not looked yet. -/
  called : Bool
  /-- Until when the task sleeps unless it is called; nothing when it waits for a call alone. -/
  asleepUntil : Option Nat
  deriving DecidableEq, Repr

namespace Supervisor

variable {α : Type}

/-- A supervisor made at the time `now`. Its task has yet to look for the first time. -/
def new (granularity now : Nat) : Supervisor α := ⟨granularity, now, .empty, true, none⟩

/-- The deadline of something that may take `timeout` from `now` on: at the next tick, unless
that is too far away to be told, and then without rounding. -/
def deadlineAfter (s : Supervisor α) (now timeout : Nat) : Nat :=
  let raw := now + min timeout maxTimeout
  if s.granularity = 0 then raw
  else
    let offset := raw - s.origin
    let rounded := (offset + (s.granularity - 1)) / s.granularity * s.granularity
    if rounded < UInt64.size then s.origin + rounded else raw

/-- Add a deadline and call the task. -/
def scheduleAt (s : Supervisor α) (key : CorrelationKey) (deadline : Nat) (tell : α) :
    Except Fault (Supervisor α) :=
  (s.queue.schedule key deadline tell).map fun queue => { s with queue, called := true }

/-- Call a deadline off; says whether there was one. -/
def cancel (s : Supervisor α) (key : CorrelationKey) : Bool × Supervisor α :=
  let (found, queue) := s.queue.cancel key
  (found, { s with queue })

/-- Let the task run until it sleeps again; returns what fired, in order. -/
def poll (s : Supervisor α) (now : Nat) : List (CorrelationKey × α) × Supervisor α :=
  let (fired, queue) := s.queue.fire now
  (fired, { s with queue, called := false, asleepUntil := queue.next? })

end Supervisor

end Flotilla
