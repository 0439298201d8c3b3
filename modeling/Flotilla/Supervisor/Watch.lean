import Flotilla.Supervisor

/-!
# Watching deadlines go by

A supervisor by itself, with a clock: nothing else happens, so time can pass from one deadline to
the next. What fires is written down with the time at which it fired.
-/

namespace Flotilla

/-- A supervisor and its clock. -/
structure Watch (α : Type) where
  /-- The time. -/
  now : Nat
  /-- The supervisor. -/
  supervisor : Supervisor α
  /-- What has fired and when, the earliest first. -/
  fired : List (Nat × CorrelationKey × α)
  deriving DecidableEq, Repr

namespace Watch

variable {α : Type}

/-- A watch that starts at the time 0. -/
def new (granularity : Nat) : Watch α := ⟨0, .new granularity 0, []⟩

/-- Let the supervisor's task run if it was called or has slept long enough. -/
def settle (w : Watch α) : Watch α :=
  if w.supervisor.called || w.supervisor.asleepUntil.any (· ≤ w.now) then
    let (fired, supervisor) := w.supervisor.poll w.now
    { w with supervisor, fired := w.fired ++ fired.map fun e => (w.now, e) }
  else w

/-- Let time come to `limit`, stopping wherever the supervisor's task wakes, at most so often. -/
def comeTo (limit : Nat) : Nat → Watch α → Watch α
  | 0, w => { w with now := limit }
  | n + 1, w =>
    let w := w.settle
    match w.supervisor.asleepUntil with
    | some deadline =>
      if Nanos.tick deadline < limit then comeTo limit n { w with now := Nanos.tick deadline }
      else { w with now := limit }
    | none => { w with now := limit }

/-- Let a span of time pass. The task wakes at most once for each deadline and once in vain; when
it sleeps until the end of the span it does not run any more. -/
def elapse (w : Watch α) (span : Nat) : Watch α :=
  if span = 0 then w
  else comeTo (Nanos.tick (Nanos.wakeTime w.now span)) (w.supervisor.queue.size + 2) w

end Watch

end Flotilla
