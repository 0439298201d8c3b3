import Flotilla.Fields
import Flotilla.Registry

/-!
# Rolling out a bundle

The step definitions of a rollout. `deploy-bundle` pushes a bundle to the device and awaits its
acknowledgement; `verify-bundle` asks the device for its version and, when it is the expected
one, records it in the store; `reboot` restarts the device. A reply that starts with `error` is a
refusal.
-/

namespace Flotilla.Rollout

/-- The key of the step that pushes a bundle. -/
def deployBundle : String := "deploy-bundle"

/-- The key of the step that checks the version. -/
def verifyBundle : String := "verify-bundle"

/-- The key of the step that restarts the device. -/
def reboot : String := "reboot"

/-- The store key of the version that a device was last verified at. -/
def versionKey (target : String) : String := "device/" ++ target ++ "/version"

/-- Send a command with the standard time limit and wait for its reply. -/
def ask (ctx : StepContext) (command payload : String) : Program Stepping Outcome :=
  Stepping.request command (Text.utf8 payload) ctx.config.requestTimeout

/-- An acknowledgement as the result of a step. -/
def checkAck (command : String) (reply : Response) : Except Fault Unit :=
  if startsWith "error" reply.text then
    .error (.stepFailure (reply.sender ++ " refused " ++ command ++ ": " ++ reply.text))
  else .ok ()

/-- Send a command and take its reply for an acknowledgement. -/
def order (ctx : StepContext) (command payload : String) :
    Program Stepping (Except Fault Unit) := do
  match ← ask ctx command payload with
  | .error fault => pure (.error fault)
  | .ok reply => pure (checkAck command reply)

/-- Push a bundle to the device. -/
def deploy : Behaviour := fun ctx =>
  match ctx.require "bundle" with
  | .error fault => pure (.error fault)
  | .ok bundle =>
    match ctx.require "version" with
    | .error fault => pure (.error fault)
    | .ok version =>
      order ctx "deploy" (Fields.encode [("bundle", bundle), ("version", version)])

/-- The version that a reply reports; the empty text when it reports none. -/
def reportedVersion (reply : Response) : String :=
  ((Fields.parse reply.text).get? "version").getD ""

/-- The result of a transaction without its value. -/
def unitOf (result : Except Fault (Committed Unit) × Unit) : Except Fault Unit :=
  result.1.map fun _ => ()

/-- Check the version of the device and record it. -/
def verify : Behaviour := fun ctx =>
  match ctx.require "version" with
  | .error fault => pure (.error fault)
  | .ok expected => do
    match ← ask ctx "status" "" with
    | .error fault => pure (.error fault)
    | .ok reply =>
      let reported := reportedVersion reply
      if reported ≠ expected then
        pure (.error (.stepFailure (ctx.target ++ " reports version " ++ Text.quoted reported ++
          ", expected " ++ expected)))
      else
        let result ← Stepping.storing <| Storing.transact
          (fun tx => pure (.ok (), tx.put (versionKey ctx.target) (Text.utf8 expected), ())) []
        pure (unitOf result)

/-- The payload of a restart: the wait before it, if one is set. -/
def rebootPayload (ctx : StepContext) : Except Fault String :=
  match ctx.property? "delay_ms" with
  | none => .ok ""
  | some raw =>
    match Text.readWhole raw.toList with
    | .ok delay => .ok (Fields.encode [("delay_ms", Text.decimal delay)])
    | .error fault =>
      .error (.invalidProperty reboot "delay_ms" (Text.quoted raw ++ ": " ++ fault.message))

/-- Restart the device. -/
def restart : Behaviour := fun ctx =>
  match rebootPayload ctx with
  | .error fault => pure (.error fault)
  | .ok payload => order ctx "reboot" payload

/-- The definitions of a rollout. -/
def definitions : List StepDefinition :=
  [⟨deployBundle, ["bundle", "version"], deploy⟩, ⟨verifyBundle, ["version"], verify⟩,
    ⟨reboot, ["delay_ms"], restart⟩]

/-- Add the definitions of a rollout to a registry. -/
def register (r : Registry) : Except Fault Registry := definitions.foldlM Registry.register r

end Flotilla.Rollout
