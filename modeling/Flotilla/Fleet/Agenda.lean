import Flotilla.Fault

/-!
# The agenda

Which task runs when. Tasks that can go on are taken in the order in which they were woken; a
task is in the row at most once. A task that sleeps has a timer; timers that end together wake
their tasks in the order in which they were set.
-/

namespace Flotilla

/-- The tasks of a fleet. -/
inductive Task where
  /-- Hands out the messages of the broker. -/
  | delivery
  /-- Watches over the deadlines of requests. -/
  | supervisor
  /-- Waits for the end of the broker. -/
  | watcher
  /-- Reads the notices of recorded jobs. -/
  | reader
  /-- Answers one command on behalf of a device. -/
  | responder (index : Nat)
  /-- Waits for what one request comes to. -/
  | caller (number : Nat)
  /-- Runs a job. -/
  | worker (job : JobId)
  deriving DecidableEq, Repr

/-- Which task runs when. -/
structure Agenda where
  /-- The task that is running. -/
  current : Option Task
  /-- Whether the running task was woken while it ran. -/
  again : Bool
  /-- The tasks that can go on, the first in front. -/
  ready : List Task
  /-- The tasks that sleep, and until when, in the order in which they went to sleep. -/
  timers : List (Nat × Task)
  deriving DecidableEq, Repr

namespace Agenda

/-- An agenda with these tasks ready. -/
def new (ready : List Task) : Agenda := ⟨none, false, ready, []⟩

/-- Let a task go on as soon as it is its turn. -/
def wake (a : Agenda) (task : Task) : Agenda :=
  if a.current = some task then { a with again := true }
  else if task ∈ a.ready then a
  else { a with ready := a.ready ++ [task] }

/-- Take away the timer of a task. -/
def disarm (a : Agenda) (task : Task) : Agenda :=
  { a with timers := a.timers.filter (·.2 ≠ task) }

/-- Wake a task at the first whole millisecond that is not before `time`. A task that sleeps until
then already keeps its place among those that wake with it. -/
def arm (a : Agenda) (task : Task) (time : Nat) : Agenda :=
  if (Nanos.tick time, task) ∈ a.timers then a
  else
    let a := a.disarm task
    { a with timers := a.timers ++ [(Nanos.tick time, task)] }

/-- Let a task go to sleep anew: among those that wake with it, it is the last. -/
def rearm (a : Agenda) (task : Task) (time : Nat) : Agenda := (a.disarm task).arm task time

/-- Take the first task that can go on. -/
def take (a : Agenda) : Option (Task × Agenda) :=
  match a.ready with
  | [] => none
  | task :: ready => some (task, { a with current := some task, again := false, ready })

/-- Let the running task wait; if it was woken meanwhile it goes to the end of the row. -/
def yield (a : Agenda) : Agenda :=
  match a.current with
  | none => a
  | some task =>
    let a := { a with current := none, again := false, ready := a.ready ++
      if a.again then [task] else [] }
    a

/-- When the next timer ends. -/
def next? (a : Agenda) : Option Nat := (a.timers.map Prod.fst).min?

/-- Wake the tasks whose timers have ended. -/
def ring (a : Agenda) (now : Nat) : Agenda :=
  let due := (a.timers.filter (·.1 ≤ now)).mergeSort fun s t => s.1 ≤ t.1
  let a := { a with timers := a.timers.filter fun t => now < t.1 }
  due.foldl (fun a t => a.wake t.2) a

end Agenda

end Flotilla
