import Flotilla.Worker

/-!
# Decisions of a worker

What a worker does next, decided from what it knows: the job, whether a stop was requested, and
how the last thing that it did turned out. Nothing here touches the store or the channel. A
normal end has to be claimed against stops: a worker that finds a stop requested settles the stop
instead, and once it has claimed the end no stop is taken any more.
-/

namespace Flotilla

/-- The policy of a step: its own, or that of its kind. -/
def Config.policyFor (config : Config) (step : JobStep) : RetryPolicy :=
  step.retry.getD (config.retryFor step.definition)

/-- The policy that the end of a job is recorded under: that of the step whose turn it is, or of
the last one. -/
def Config.closingPolicy (config : Config) (job : Job) : RetryPolicy :=
  match job.current?.or job.steps.getLast? with
  | some step => config.policyFor step
  | none => config.defaultRetry

namespace Job

/-- The job with the step whose turn it is changed. -/
def modifyCurrent (j : Job) (change : JobStep → JobStep) : Job := j.modifyStep j.currentStep change

/-- The job at the start of an attempt. -/
def beginAttempt (j : Job) : Job :=
  j.modifyCurrent fun s => { s with attempts := s.attempts + 1, status := .running }

/-- The job after an attempt that succeeded: the next step's turn. -/
def completeStep (j : Job) : Job :=
  { j.modifyCurrent (fun s => { s with status := .completed }) with
    currentStep := j.currentStep + 1 }

/-- The attempts made at the step whose turn it is. -/
def attempts (j : Job) : UInt32 := (j.current?.map JobStep.attempts).getD 0

/-- The job with what was under way marked as called off. -/
def cancelCurrent (j : Job) : Job :=
  j.modifyCurrent fun s =>
    if s.status = .running ∨ (s.status = .pending ∧ 0 < s.attempts) then
      { s with status := .cancelled }
    else s

end Job

namespace JobEntry

/-- Settle a stop: first record that the job is stopping. -/
def beginStop (e : JobEntry) (config : Config) : JobEntry :=
  e.goTo (.moving .stopRequested config.defaultRetry 0)

/-- Claim the end of the job, or settle a stop that came first. -/
def conclude (e : JobEntry) (config : Config) (event : JobEvent) (failure : Option Fault) :
    JobEntry :=
  if e.phase = .stopRequested then e.beginStop config
  else
    let job := match failure with
      | some fault => { e.job with lastError := some fault.message }
      | none => e.job
    { e with
      phase := .finished, job, stage := .moving event (config.closingPolicy job) 0 }

/-- Look which step is next. -/
def choose (e : JobEntry) (config : Config) (registry : Registry) : JobEntry :=
  if e.stop then e.beginStop config
  else
    match e.job.current? with
    | none => e.conclude config .allStepsCompleted none
    | some step =>
      match registry.lookup step.definition with
      | .error fault =>
        let job := e.job.modifyCurrent fun s =>
          { s with status := .failed, lastError := some fault.message }
        { e with job }.conclude config .fatalError (some fault)
      | .ok d => e.goTo (.starting ⟨d, config.policyFor step, d.declared step.properties⟩)

/-- An attempt failed: try again later, or end the job. -/
def attemptFailed (e : JobEntry) (config : Config) (run : StepRun) (fault : Fault) : JobEntry :=
  if e.stop then e.beginStop config
  else
    let failing (status : StepStatus) : JobEntry :=
      { e with job := e.job.modifyCurrent fun s =>
        { s with lastError := some fault.message, status } }
    if fault.isFatal then (failing .failed).conclude config .fatalError (some fault)
    else if !fault.isRetryable || !run.policy.allowsAnother e.job.attempts then
      (failing .failed).conclude config .stepExhausted (some fault)
    else (failing .pending).goTo (.pausing run)

/-- The pause after a failed attempt has been recorded, or could not be: wait, if the policy says
so, and try again. -/
def backOff (e : JobEntry) (now : Nat) (run : StepRun) : JobEntry :=
  let delay := run.policy.delayAfter e.job.attempts
  if delay = 0 then e.goTo (.starting run) else e.goTo (.backingOff run (Nanos.wakeTime now delay))

/-- A move of the job has been recorded. -/
def moved (e : JobEntry) (config : Config) : JobEvent → JobEntry
  | .start => e.goTo .choosing
  | .stopRequested =>
    { e with job := e.job.cancelCurrent }.goTo (.moving .stopSettled config.defaultRetry 0)
  | .allStepsCompleted | .stepExhausted | .fatalError | .stopSettled => e.goTo (.leaving (.ok ()))

/-- A move of the job could not be recorded: rest and try again as long as the policy allows it.
A completion that cannot be recorded ends the job as failed instead; that is tried once. -/
def moveRefused (e : JobEntry) (now : Nat) (event : JobEvent) (policy : RetryPolicy)
    (tries : UInt32) (fault : Fault) : JobEntry :=
  if fault.isRetryable && policy.allowsAnother tries then
    e.goTo (.resting event policy tries (Nanos.wakeTime now (policy.delayAfter tries)))
  else if event = .allStepsCompleted then
    { e with job := { e.job with lastError := some fault.message } }.goTo
      (.moving .stepExhausted .once 0)
  else e.goTo (.leaving (.error fault))

/-- What a behaviour is told about the attempt that is being started. -/
def context (e : JobEntry) (config : Config) (run : StepRun) : StepContext where
  job := e.job.id
  target := e.job.target
  step := e.job.currentStep
  attempt := e.job.attempts
  definition := run.definition.key
  properties := run.properties
  config

end JobEntry

end Flotilla
