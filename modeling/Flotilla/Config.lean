import Flotilla.Retry
import Flotilla.Table
import Flotilla.Topic

/-!
# Configuration

What can be set for a fleet as a whole: time limits, retry policies, how many jobs run at once
and the root of its topics.
-/

namespace Flotilla

/-- The settings of a fleet. -/
structure Config where
  /-- How long a request waits for its reply when its sender gives no time. -/
  requestTimeout : Nat
  /-- Deadlines are rounded up to a multiple of this; 0 leaves them as they are. -/
  granularity : Nat
  /-- The policy of steps that have none of their own. -/
  defaultRetry : RetryPolicy
  /-- Policies of kinds of steps. -/
  stepRetry : Table String RetryPolicy
  /-- How many jobs may run at the same time. -/
  maxConcurrentJobs : Nat
  /-- The first levels of all topics. -/
  root : String
  deriving DecidableEq, Repr

namespace Config

/-- The settings when nothing is said. -/
def standard : Config where
  requestTimeout := Nanos.ofMillis 3000
  granularity := Nanos.ofMillis 10
  defaultRetry := .standard
  stepRetry := ∅
  maxConcurrentJobs := 16
  root := "fleet"

instance : Inhabited Config := ⟨standard⟩

/-- Give a kind of steps its own policy. -/
def withStepRetry (config : Config) (key : String) (policy : RetryPolicy) : Config :=
  { config with stepRetry := config.stepRetry.set key policy }

/-- Let this many jobs run at the same time; there is always room for one. -/
def withMaxConcurrentJobs (config : Config) (jobs : Nat) : Config :=
  { config with maxConcurrentJobs := max jobs 1 }

/-- The policy of a kind of steps. -/
def retryFor (config : Config) (key : String) : RetryPolicy :=
  (config.stepRetry.get? key).getD config.defaultRetry

/-- The topic on which `target` is sent the command `command`. -/
def commandTopic (config : Config) (target command : String) : String :=
  Topic.command config.root target command

/-- The topic on which `target` answers. -/
def replyTopic (config : Config) (target : String) : String := Topic.reply config.root target

/-- The pattern of the replies of all targets. -/
def replyPattern (config : Config) : String := Topic.anyReply config.root

end Config

end Flotilla
