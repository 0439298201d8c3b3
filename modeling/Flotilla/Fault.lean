import Flotilla.Lifecycle
import Flotilla.Time

/-!
# Faults

Everything that can go wrong while commands are sent, steps are run and records are kept, with
the text of each, and which of them are worth another attempt (`Fault.isRetryable`) or end the
whole job (`Fault.isFatal`).
-/

namespace Flotilla

instance decidableEqExcept {ε α : Type} [DecidableEq ε] [DecidableEq α] :
    DecidableEq (Except ε α)
  | .error a, .error b =>
    if h : a = b then isTrue (congrArg _ h) else isFalse fun he => h (Except.error.inj he)
  | .ok a, .ok b =>
    if h : a = b then isTrue (congrArg _ h) else isFalse fun he => h (Except.ok.inj he)
  | .error _, .ok _ | .ok _, .error _ => isFalse nofun

/-- The number that ties a request to its reply; 0 belongs to no request. -/
abbrev CorrelationKey := UInt64

/-- The number of a job. -/
abbrev JobId := UInt64

/-- The longest body that a frame may have, in bytes. -/
def maxFrameBody : Nat := 4 * 1024 * 1024

/-- Why bytes could not be framed or read. -/
inductive CodecFault where
  /-- A message whose body is longer than a frame may carry. -/
  | frameTooLarge (size : Nat)
  /-- A length prefix beyond the limit. -/
  | invalidLength (length : UInt32)
  /-- A body that does not follow the encoding. -/
  | malformed
  deriving DecidableEq, Repr

/-- What went wrong. -/
inductive Fault where
  /-- The channel refused a message, or was torn down while a reply was awaited. -/
  | channelUnavailable (topic reason : String)
  /-- No reply came before the deadline. -/
  | requestTimeout (key : CorrelationKey) (timeout : Nat)
  /-- The request was called off. -/
  | cancelled (key : CorrelationKey)
  /-- No step definition has this key. -/
  | unknownStepDefinition (key : String)
  /-- Two step definitions have this key. -/
  | duplicateStepDefinition (key : String)
  /-- The step needs a property that it was not given. -/
  | missingProperty (step property : String)
  /-- The step cannot use the value of a property. -/
  | invalidProperty (step property reason : String)
  /-- The step reported a failure. -/
  | stepFailure (reason : String)
  /-- The job is in a state in which it cannot be stopped. -/
  | jobNotRunning (job : JobId) (state : JobState)
  /-- There is no such job. -/
  | jobNotFound (job : JobId)
  /-- The store did not take a commit. -/
  | commitFailure (reason : String)
  /-- A key changed after the transaction had read it. -/
  | commitConflict (key : String)
  /-- A hook failed after its commit; the commit stands. -/
  | hookFailure (index : Nat) (reason : String)
  /-- Bytes could not be framed or read. -/
  | codec (fault : CodecFault)
  /-- Something happened that must not happen. -/
  | invariant (reason : String)
  deriving DecidableEq, Repr

/-- The fault in words. -/
def CodecFault.message : CodecFault → String
  | .frameTooLarge size =>
    "Frame too large: " ++ Text.decimal size ++ " bytes (max: " ++ Text.decimal maxFrameBody ++ ")"
  | .invalidLength length => "Invalid frame length prefix: " ++ Text.decimal length.toNat
  | .malformed => "Malformed message body"

namespace Fault

/-- The fault in words. -/
def message : Fault → String
  | channelUnavailable topic reason => "Channel unavailable for " ++ topic ++ ": " ++ reason
  | requestTimeout key timeout =>
    "Request " ++ Text.decimal key.toNat ++ " timed out after " ++ Nanos.text timeout
  | cancelled key => "Request " ++ Text.decimal key.toNat ++ " was cancelled"
  | unknownStepDefinition key => "Unknown step definition: " ++ key
  | duplicateStepDefinition key => "Step definition registered twice: " ++ key
  | missingProperty step property =>
    "Step " ++ step ++ " is missing required property " ++ property
  | invalidProperty step property reason =>
    "Step " ++ step ++ " has invalid property " ++ property ++ ": " ++ reason
  | stepFailure reason => "Step failed: " ++ reason
  | jobNotRunning job state =>
    "Job " ++ Text.decimal job.toNat ++ " is not running (state: " ++ state.name ++ ")"
  | jobNotFound job => "Job " ++ Text.decimal job.toNat ++ " not found"
  | commitFailure reason => "Commit failed: " ++ reason
  | commitConflict key => "Commit conflict on " ++ key
  | hookFailure index reason =>
    "After-commit hook #" ++ Text.decimal index ++ " failed: " ++ reason
  | codec fault => "Codec error: " ++ fault.message
  | invariant reason => "Invariant violated: " ++ reason

/-- Whether a step that failed this way may be tried again. Faults of transport, timing and
record keeping pass; those of definitions and control do not. -/
def isRetryable : Fault → Bool
  | channelUnavailable .. | requestTimeout .. | stepFailure _ | commitFailure _
  | commitConflict _ | codec _ => true
  | cancelled _ | unknownStepDefinition _ | duplicateStepDefinition _ | missingProperty ..
  | invalidProperty .. | jobNotRunning .. | jobNotFound _ | hookFailure .. | invariant _ => false

/-- Whether a failure of this kind ends the whole job at once. -/
def isFatal : Fault → Bool
  | unknownStepDefinition _ | invariant _ => true
  | _ => false

end Fault

end Flotilla
