import Flotilla.Registry

/-!
# Workers

Each job has a worker, which is the only one to change it. The worker keeps a copy of the job
that can be ahead of the store, and a stage: what it will do next when it is its turn. Observers
see the snapshot, which follows the store.
-/

namespace Flotilla

/-- Where a job stands with those who may stop it. -/
inductive Phase where
  /-- It waits for a permit. -/
  | queued
  /-- It runs and can be stopped. -/
  | running
  /-- It has been asked to stop. -/
  | stopRequested
  /-- It is at its end and can no longer be stopped. -/
  | finished
  deriving DecidableEq, Repr

/-- A program that waits for something. -/
inductive Suspension (α : Type) where
  /-- It waits for what a request comes to. -/
  | reply (key : CorrelationKey) (next : Outcome → Program Stepping α)
  /-- It sleeps. -/
  | timer (wakeAt : Nat) (next : Unit → Program Stepping α)

/-- What stays the same for all attempts of a step. -/
structure StepRun where
  /-- Its definition. -/
  definition : StepDefinition
  /-- Its policy. -/
  policy : RetryPolicy
  /-- Its declared properties. -/
  properties : Table String String

/-- What a worker does next. -/
inductive Stage where
  /-- Get a permit. -/
  | queued
  /-- Record a move of the job, after `tries` tries that failed. -/
  | moving (event : JobEvent) (policy : RetryPolicy) (tries : UInt32)
  /-- Rest before trying again to record a move. -/
  | resting (event : JobEvent) (policy : RetryPolicy) (tries : UInt32) (wakeAt : Nat)
  /-- Look which step is next. -/
  | choosing
  /-- Record the start of an attempt. -/
  | starting (run : StepRun)
  /-- Begin what the attempt does. -/
  | acting (run : StepRun) (program : Program Stepping (Except Fault Unit))
  /-- Go on with what the attempt does, once it no longer has to wait. -/
  | waiting (run : StepRun) (suspension : Suspension (Except Fault Unit))
  /-- Record the success of an attempt. -/
  | succeeding (run : StepRun)
  /-- Record that the step is to be tried again. -/
  | pausing (run : StepRun)
  /-- Let the time between two attempts pass. -/
  | backingOff (run : StepRun) (wakeAt : Nat)
  /-- Leave, with a terminal state recorded or with the fault that prevented it. -/
  | leaving (result : Except Fault Unit)
  /-- Nothing: the worker has left. -/
  | gone

/-- A job that was submitted, with its worker. -/
structure JobEntry where
  /-- The job as it was last recorded. -/
  snapshot : Job
  /-- Where it stands with those who may stop it. -/
  phase : Phase
  /-- Whether a stop was requested. -/
  stop : Bool
  /-- Whether the worker has left. -/
  done : Bool
  /-- Whether the job is no longer tracked, its terminal state being in the store. -/
  archived : Bool
  /-- The worker's own copy of the job. -/
  job : Job
  /-- What the worker does next. -/
  stage : Stage

namespace JobEntry

/-- A job that has just been recorded. -/
def new (job : Job) : JobEntry := ⟨job, .queued, false, false, false, job, .queued⟩

/-- The entry with the worker at another stage. -/
def goTo (e : JobEntry) (stage : Stage) : JobEntry := { e with stage }

/-- The key of the request that the worker waits for. -/
def awaited? (e : JobEntry) : Option CorrelationKey :=
  match e.stage with
  | .waiting _ (.reply key _) => some key
  | _ => none

/-- Whether the worker is doing something that a stop interrupts. -/
def heedsStop (e : JobEntry) : Bool :=
  match e.stage with
  | .acting .. | .waiting .. | .backingOff .. => true
  | _ => false

end JobEntry

end Flotilla
