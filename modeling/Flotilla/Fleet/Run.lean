import Flotilla.Fleet.Task

/-!
# Letting a fleet run

Tasks run one at a time, each until it has to wait, in the order in which they were woken. Time
stands still as long as any task can go on, and then jumps to the next timer.
-/

namespace Flotilla.Fleet

/-- Let the task whose turn it is take one turn; nothing when no task can go on. -/
def advanceTask (f : Fleet) : Option Fleet :=
  match f.agenda.current with
  | some task =>
    match f.turn task with
    | .goesOn f => some f
    | .waits f => some { f with agenda := f.agenda.yield }
  | none =>
    match f.agenda.take with
    | some (_, agenda) => some { f with agenda }
    | none => none

/-- How many turns a run may take before it is given up. -/
def patience : Nat := 10000000

/-- Let tasks run until none can go on, for at most so many turns. -/
def settleWithin : Nat → Fleet → Fleet
  | 0, f => f
  | n + 1, f =>
    match f.advanceTask with
    | some f => settleWithin n f
    | none => f

/-- Let tasks run until none can go on. -/
def settle (f : Fleet) : Fleet := settleWithin patience f

/-- Let the time come to `time`, and wake whoever slept until then. -/
def comeTo (f : Fleet) (time : Nat) : Fleet :=
  { f with now := time, agenda := f.agenda.ring time }

/-- Let tasks run and time pass until `reached` holds when no task can go on, or the time `limit`
has come, for at most so many turns. Whoever sleeps until the time `limit` is woken and does not
run any more. -/
def runUntil (reached : Fleet → Bool) (limit : Nat) : Nat → Fleet → Fleet
  | 0, f => f
  | n + 1, f =>
    match f.advanceTask with
    | some f => runUntil reached limit n f
    | none =>
      if reached f then f
      else
        match f.agenda.next? with
        | some time =>
          if time < limit then runUntil reached limit n (f.comeTo time) else f.comeTo limit
        | none => f.comeTo limit

/-- Let a span of time pass, and everything happen that happens before its end. -/
def elapse (f : Fleet) (span : Nat) : Fleet :=
  if span = 0 then f
  else runUntil (fun _ => false) (Nanos.tick (Nanos.wakeTime f.now span)) patience f

/-- How long somebody waits for a job. -/
def waitLimit : Nat := Nanos.ofSeconds 3600

/-- Wait for a job: what is learnt about its end, or nothing when that takes too long. -/
def wait (f : Fleet) (job : JobId) : Option (Except Fault Job) × Fleet :=
  match f.tracked? job with
  | none =>
    let (result, f) := f.archivedEnd job
    (some result, f)
  | some _ =>
    let ended (f : Fleet) : Bool := (f.jobs.get? job).any JobEntry.done
    let f := if ended f then f else runUntil ended (Nanos.tick (f.now + waitLimit)) patience f
    match (f.jobs.get? job).filter JobEntry.done with
    | some e => (some (trackedEnd e), f)
    | none => (none, f)

end Flotilla.Fleet
