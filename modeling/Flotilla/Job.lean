import Flotilla.JobRecord
import Flotilla.Retry
import Flotilla.Table

/-!
# Jobs

A job is a row of steps for one device. It knows which step is its turn and what has become of
the steps before. Its recorded form leaves out the retry policies that single steps bring along.
-/

namespace Flotilla

/-- One step of a job. -/
structure JobStep where
  /-- The key of its definition. -/
  definition : String
  /-- Its properties. -/
  properties : Table String String
  /-- A retry policy of its own. -/
  retry : Option RetryPolicy
  /-- What has become of it. -/
  status : StepStatus
  /-- The attempts made so far. -/
  attempts : UInt32
  /-- The text of its last failure. -/
  lastError : Option String
  deriving DecidableEq, Repr

/-- A job. -/
structure Job where
  /-- Its number. -/
  id : JobId
  /-- The device it is for. -/
  target : String
  /-- Its steps in order. -/
  steps : List JobStep
  /-- The index of the step that is its turn. -/
  currentStep : Nat
  /-- Its state. -/
  state : JobState
  /-- The text of the failure that ended it. -/
  lastError : Option String
  /-- When it was submitted, in milliseconds. -/
  createdAtMs : UInt64
  /-- When it was last recorded, in milliseconds. -/
  updatedAtMs : UInt64
  deriving DecidableEq, Repr

/-- A text that is not empty. -/
def nonEmpty? (s : String) : Option String := if s.isEmpty then none else some s

namespace JobStep

/-- A step that has not been tried. -/
def new (definition : String) : JobStep := ⟨definition, ∅, none, .pending, 0, none⟩

/-- The step with a property set. -/
def withProperty (s : JobStep) (name value : String) : JobStep :=
  { s with properties := s.properties.set name value }

/-- The step with a retry policy of its own. -/
def withRetry (s : JobStep) (policy : RetryPolicy) : JobStep := { s with retry := some policy }

/-- The recorded form. -/
def toRecord (s : JobStep) : StepRecord where
  definition := s.definition
  status := s.status.code
  attempts := s.attempts
  lastError := s.lastError.getD ""
  properties := s.properties.entries.map fun p => ⟨p.1, p.2⟩

/-- The step that a record describes. -/
def ofRecord (r : StepRecord) : JobStep where
  definition := r.definition
  properties := Table.ofList (r.properties.map fun p => (p.name, p.value))
  retry := none
  status := .ofCode r.status
  attempts := r.attempts
  lastError := nonEmpty? r.lastError

end JobStep

namespace Job

/-- What the store keys of all job records start with. -/
def keyRoot : String := "job/"

/-- The store key of a job's record. -/
def key (id : JobId) : String := keyRoot ++ Text.decimal id.toNat

/-- A job as it is submitted. -/
def new (id : JobId) (target : String) (steps : List JobStep) (nowMs : UInt64) : Job :=
  ⟨id, target, steps, 0, .created, none, nowMs, nowMs⟩

/-- Whether the job is at its end. -/
def isTerminal (j : Job) : Bool := j.state.isTerminal

/-- The step that is its turn, if there is one left. -/
def current? (j : Job) : Option JobStep := j.steps[j.currentStep]?

/-- The job with one of its steps changed. -/
def modifyStep (j : Job) (index : Nat) (f : JobStep → JobStep) : Job :=
  { j with steps := j.steps.modify index f }

/-- The recorded form. -/
def toRecord (j : Job) : JobRecord where
  id := j.id
  target := j.target
  state := j.state.code
  currentStep := UInt32.ofNat j.currentStep
  steps := j.steps.map JobStep.toRecord
  lastError := j.lastError.getD ""
  updatedAtMs := j.updatedAtMs

/-- The job that a record describes. -/
def ofRecord (r : JobRecord) : Job where
  id := r.id
  target := r.target
  steps := r.steps.map JobStep.ofRecord
  currentStep := r.currentStep.toNat
  state := .ofCode r.state
  lastError := nonEmpty? r.lastError
  createdAtMs := r.updatedAtMs
  updatedAtMs := r.updatedAtMs

end Job

end Flotilla
