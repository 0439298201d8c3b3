import Flotilla.Fleet.Run
import Flotilla.Rollout
import Flotilla.Text.Quoted

/-!
# A rehearsal

A rollout to a small simulated fleet. One of its targets has no device behind it: the job for it
uses up its attempts and fails, while the others complete.
-/

namespace Flotilla.Rehearsal

/-- The settings: replies are not waited for long, and a restart is tried once. -/
def config : Config :=
  ({ Config.standard with requestTimeout := Nanos.ofMillis 500 }.withStepRetry
    Rollout.deployBundle (.new 2 .none)).withStepRetry Rollout.reboot .once

/-- The devices. -/
def devices : List Device :=
  [("edge-001", "1.4"), ("edge-002", "1.4"), ("edge-003", "1.3")].map fun d =>
    .new d.1 config.root d.2 (Nanos.ofMillis 50)

/-- The targets of the rollout: the devices, and one that nobody answers for. -/
def targets : List String := devices.map Device.id ++ ["edge-404"]

/-- The version that is rolled out. -/
def version : String := "2.0"

/-- The steps of each job. -/
def steps : List JobStep :=
  [((JobStep.new Rollout.deployBundle).withProperty "bundle"
      ("firmware-" ++ version ++ ".bin")).withProperty "version" version,
    (JobStep.new Rollout.verifyBundle).withProperty "version" version,
    (JobStep.new Rollout.reboot).withProperty "delay_ms" "500"]

/-- The fleet with its devices attached, ready to take jobs with these definitions. -/
def fleet (registry : Registry) : Except Fault Fleet :=
  let f := devices.foldl (fun f d => (f.attach d).2) (Fleet.new config (.new []) registry)
  match f.startCorrelator with
  | (.ok (), f) => .ok f
  | (.error fault, _) => .error fault

/-- Submit a job for each target. -/
def submitAll (f : Fleet) : List String → Except Fault (List JobId) × Fleet
  | [] => (.ok [], f)
  | target :: rest =>
    match f.submit target steps with
    | (.error fault, f) => (.error fault, f)
    | (.ok id, f) =>
      let (ids, f) := submitAll f rest
      (ids.map (id :: ·), f)

/-- What became of a job, in words. -/
def describe (j : Job) : String :=
  let head := "Job " ++ Text.decimal j.id.toNat ++ " on " ++ j.target ++ " ended " ++ j.state.name
  match j.lastError with
  | some reason => head ++ " at step " ++ Text.decimal j.currentStep ++ ": " ++ reason
  | none => head

/-- Wait for jobs one after the other, and say what became of them. -/
def awaitAll (f : Fleet) : List JobId → List String × Fleet
  | [] => ([], f)
  | id :: rest =>
    let (result, f) := f.wait id
    let (lines, f) := awaitAll f rest
    match result with
    | some (.ok job) => (describe job :: lines, f)
    | some (.error fault) => (fault.message :: lines, f)
    | none => (("Job " ++ Text.decimal id.toNat ++ " is still under way") :: lines, f)

/-- The requests in numbers. -/
def tallyLine (t : Tally) : String :=
  "Requests: " ++ Text.decimal t.responses ++ " answered, " ++ Text.decimal t.timeouts ++
    " timed out, " ++ Text.decimal t.cancellations ++ " cancelled, " ++
    Text.decimal t.discarded ++ " discarded"

/-- The whole rehearsal, line by line. -/
def report : Except Fault (List String) := do
  let registry ← Rollout.register .empty
  let f ← fleet registry
  let (ids, f) := submitAll f targets
  let (lines, f) := awaitAll f (← ids)
  pure (("Simulated fleet of " ++ Text.decimal devices.length ++ " device(s) attached") ::
    ("Step definitions: [" ++ ", ".intercalate (registry.keys.map Text.quoted) ++ "]") ::
    lines ++ [tallyLine f.correlator.tally])

end Flotilla.Rehearsal
