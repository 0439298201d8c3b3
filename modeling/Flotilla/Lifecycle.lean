/-!
# The life of a job

The states a job goes through, the events that move it, and the states of its steps. A job that
has completed, failed or stopped is at its end: no event moves it on (`next?_of_isTerminal`).
-/

namespace Flotilla

/-- The state of a job. -/
inductive JobState where
  /-- Recorded, not yet picked up. -/
  | created
  /-- Its steps are being run. -/
  | running
  /-- Ended by a step that failed. -/
  | stepFailed
  /-- Ended with every step done. -/
  | completed
  /-- Asked to stop, and settling. -/
  | stopping
  /-- Ended by a stop. -/
  | stopped
  deriving DecidableEq, Repr, Inhabited

/-- What moves a job from one state to another. -/
inductive JobEvent where
  /-- A worker picked the job up. -/
  | start
  /-- The last step succeeded. -/
  | allStepsCompleted
  /-- A step failed and may not be tried again. -/
  | stepExhausted
  /-- A failure that ends the whole job. -/
  | fatalError
  /-- Somebody asked for a stop. -/
  | stopRequested
  /-- What was under way has been given up. -/
  | stopSettled
  deriving DecidableEq, Repr

/-- The state of one step of a job. -/
inductive StepStatus where
  | pending
  | running
  | completed
  | failed
  | cancelled
  deriving DecidableEq, Repr, Inhabited

namespace JobState

/-- The state as it is written in messages. -/
def name : JobState → String
  | .created => "Created"
  | .running => "Running"
  | .stepFailed => "StepFailed"
  | .completed => "Completed"
  | .stopping => "Stopping"
  | .stopped => "Stopped"

/-- Whether the job is at its end. -/
def isTerminal : JobState → Bool
  | .completed | .stepFailed | .stopped => true
  | .created | .running | .stopping => false

/-- The state that an event leads to, if it may come in this state. -/
def next? : JobState → JobEvent → Option JobState
  | .created, .start => some .running
  | .running, .allStepsCompleted => some .completed
  | .running, .stepExhausted => some .stepFailed
  | .running, .fatalError => some .stepFailed
  | .running, .stopRequested => some .stopping
  | .stopping, .stopRequested => some .stopping
  | .stopping, .stopSettled => some .stopped
  | _, _ => none

/-- No event moves a job that is at its end. -/
theorem next?_of_isTerminal {s : JobState} (h : s.isTerminal = true) (e : JobEvent) :
    s.next? e = none := by
  cases s <;> first | rfl | cases h

/-- The number a state is recorded as. -/
def code : JobState → UInt32
  | .created => 0
  | .running => 1
  | .stepFailed => 2
  | .completed => 3
  | .stopping => 4
  | .stopped => 5

/-- The state with a number; numbers that no state has read as `created`. -/
def ofCode (n : UInt32) : JobState :=
  if n = 1 then .running else if n = 2 then .stepFailed else if n = 3 then .completed
  else if n = 4 then .stopping else if n = 5 then .stopped else .created

@[simp] theorem ofCode_code (s : JobState) : ofCode s.code = s := by cases s <;> rfl

end JobState

namespace JobEvent

/-- The event as it is written in messages. -/
def name : JobEvent → String
  | .start => "Start"
  | .allStepsCompleted => "AllStepsCompleted"
  | .stepExhausted => "StepExhausted"
  | .fatalError => "FatalError"
  | .stopRequested => "StopRequested"
  | .stopSettled => "StopSettled"

end JobEvent

namespace StepStatus

/-- The status as it is written in messages. -/
def name : StepStatus → String
  | .pending => "Pending"
  | .running => "Running"
  | .completed => "Completed"
  | .failed => "Failed"
  | .cancelled => "Cancelled"

/-- The number a status is recorded as. -/
def code : StepStatus → UInt32
  | .pending => 0
  | .running => 1
  | .completed => 2
  | .failed => 3
  | .cancelled => 4

/-- The status with a number; numbers that no status has read as `pending`. -/
def ofCode (n : UInt32) : StepStatus :=
  if n = 1 then .running else if n = 2 then .completed else if n = 3 then .failed
  else if n = 4 then .cancelled else .pending

@[simp] theorem ofCode_code (s : StepStatus) : ofCode s.code = s := by cases s <;> rfl

end StepStatus

/-- The state of one job as events are applied to it. -/
structure Lifecycle where
  /-- The state reached so far. -/
  state : JobState
  deriving DecidableEq, Repr

/-- What an event did. -/
inductive Transition where
  /-- The event moved the job to this state. -/
  | moved (state : JobState)
  /-- The event may not come in this state and changed nothing. -/
  | refused (state : JobState) (event : JobEvent)
  deriving DecidableEq, Repr

namespace Lifecycle

/-- The life of a new job. -/
def new : Lifecycle := ⟨.created⟩

/-- Apply an event. One that may not come leaves the state as it is. -/
def apply (life : Lifecycle) (event : JobEvent) : Transition × Lifecycle :=
  match life.state.next? event with
  | some state => (.moved state, ⟨state⟩)
  | none => (.refused life.state event, life)

/-- Apply events one after the other: what each did with the life after it, and the life at the
end. -/
def run (life : Lifecycle) : List JobEvent → List (Transition × Lifecycle) × Lifecycle
  | [] => ([], life)
  | event :: rest =>
    let moved := life.apply event
    let (later, last) := run moved.2 rest
    (moved :: later, last)

end Lifecycle

end Flotilla
