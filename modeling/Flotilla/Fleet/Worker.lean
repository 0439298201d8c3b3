import Flotilla.Fleet.Program
import Flotilla.Worker.Decision

/-!
# Workers of a fleet

One turn of a worker: it does what its stage says and decides on the next stage, or finds that it
has to wait. A turn records the job at most once. A program that a step runs is a single turn up
to the point where it has to wait.
-/

namespace Flotilla.Fleet

/-- What can come of a turn. -/
inductive Turn where
  /-- The task can go on. -/
  | goesOn (f : Fleet)
  /-- The task has to wait, or has come to its end. -/
  | waits (f : Fleet)

/-- Change the entry of a job and let its worker go on. -/
def goOn (f : Fleet) (job : JobId) (change : JobEntry → JobEntry) : Turn :=
  .goesOn (f.modifyJob job change)

/-- Let the worker of a job wait until a time, or do something when it has come. -/
def sleepUntil (f : Fleet) (job : JobId) (wakeAt : Nat) (change : JobEntry → JobEntry) : Turn :=
  if wakeAt ≤ f.now then (f.disarm (.worker job)).goOn job change
  else .waits (f.arm (.worker job) wakeAt)

/-- Record a move of a job. -/
def move (f : Fleet) (id : JobId) (e : JobEntry) (event : JobEvent) (policy : RetryPolicy)
    (tries : UInt32) : Turn :=
  match e.job.state.next? event with
  | none =>
    let fault := Fault.invariant ("job " ++ Text.decimal e.job.id.toNat ++ " cannot take " ++
      event.name ++ " in state " ++ e.job.state.name)
    f.goOn id fun e => e.moveRefused f.now event policy (tries + 1) fault
  | some state =>
    match f.persist { e.job with state } with
    | (.ok (), job, f) =>
      let f := if event = .stopRequested then (f.cancelOwnedBy id).2 else f
      f.goOn id fun e => { e with job }.moved f.config event
    | (.error fault, job, f) =>
      f.goOn id fun entry =>
        { entry with job := { job with state := e.job.state } }.moveRefused f.now event policy
          (tries + 1) fault

/-- Run what an attempt does until it ends or has to wait. -/
def act (f : Fleet) (id : JobId) (e : JobEntry) (run : StepRun)
    (program : Program Stepping (Except Fault Unit)) : Turn :=
  match f.run id e.job.target program with
  | (.inl suspension, f) =>
    let f := f.modifyJob id fun e => e.goTo (.waiting run suspension)
    match suspension with
    | .timer wakeAt _ => .waits (f.arm (.worker id) wakeAt)
    | .reply .. => .waits f
  | (.inr (.ok ()), f) => f.goOn id fun e => e.goTo (.succeeding run)
  | (.inr (.error fault), f) => f.goOn id fun e => e.attemptFailed f.config run fault

/-- A worker leaves: its permit goes to the next in line, and those who wait for the job learn
its end. -/
def leave (f : Fleet) (id : JobId) (result : Except Fault Unit) : Turn :=
  let (next, permits) := f.permits.release
  let f := { f with permits }
  let f := match next with
    | some job => f.wake (.worker job)
    | none => f
  f.goOn id fun e =>
    { e with
      phase := .finished, done := true, stage := .gone
      archived := match result with
        | .ok () => true
        | .error _ => false }

/-- One turn of the worker of a job. -/
def workerTurn (f : Fleet) (id : JobId) : Turn :=
  match f.jobs.get? id with
  | none => .waits f
  | some e =>
    match e.stage with
    | .queued =>
      match f.permits.acquire id with
      | (true, permits) =>
        { f with permits }.goOn id fun e =>
          { e with phase := .running }.goTo (.moving .start f.config.defaultRetry 0)
      | (false, permits) => .waits { f with permits }
    | .moving event policy tries => f.move id e event policy tries
    | .resting event policy tries wakeAt =>
      f.sleepUntil id wakeAt fun e => e.goTo (.moving event policy tries)
    | .choosing => f.goOn id fun e => e.choose f.config f.registry
    | .starting run =>
      match f.persist e.job.beginAttempt with
      | (.ok (), job, f) =>
        f.goOn id fun e =>
          let e := { e with job }
          e.goTo (.acting run (run.definition.behaviour (e.context f.config run)))
      | (.error fault, job, f) =>
        f.goOn id fun e => { e with job }.attemptFailed f.config run fault
    | .acting run program =>
      if e.stop then f.goOn id fun e => e.beginStop f.config else f.act id e run program
    | .waiting run suspension =>
      if e.stop then (f.disarm (.worker id)).goOn id fun e => e.beginStop f.config
      else
        match f.resume? suspension with
        | some program => (f.disarm (.worker id)).act id e run program
        | none => .waits f
    | .succeeding run =>
      match f.persist e.job.completeStep with
      | (.ok (), job, f) => f.goOn id fun e => { e with job }.goTo .choosing
      | (.error fault, job, f) =>
        f.goOn id fun entry =>
          { entry with job := { e.job with updatedAtMs := job.updatedAtMs } }.attemptFailed
            f.config run fault
    | .pausing run =>
      let (_, job, f) := f.persist e.job
      f.goOn id fun e => { e with job }.backOff f.now run
    | .backingOff run wakeAt =>
      if e.stop then (f.disarm (.worker id)).goOn id fun e => e.beginStop f.config
      else f.sleepUntil id wakeAt fun e => e.goTo (.starting run)
    | .leaving result => f.leave id result
    | .gone => .waits f

end Flotilla.Fleet
