import Flotilla.Broker
import Flotilla.Chronicle
import Flotilla.Device
import Flotilla.Fleet.Agenda
import Flotilla.Permits
import Flotilla.Worker

/-!
# The fleet

A fleet is everything together at one instant: the broker and the devices attached to it, the
requests under way, the store, the jobs and their workers, and the agenda that says whose turn it
is. What happens is written down in a chronicle, in order and with its time.
-/

namespace Flotilla

/-- Who listens to the broker. -/
inductive Listener where
  /-- Somebody who only looks on. -/
  | observer (name : String)
  /-- The device with this index. -/
  | device (index : Nat)
  /-- The sender of requests. -/
  | correlator
  deriving DecidableEq, Repr

/-- What a device does with a command. -/
inductive ResponderStage where
  /-- The command has come in. -/
  | received
  /-- The answer takes its time. -/
  | delaying (wakeAt : Nat)
  /-- The command is dealt with. -/
  | gone
  deriving DecidableEq, Repr

/-- One command on its way through a device. -/
structure Responder where
  /-- The index of the device. -/
  device : Nat
  /-- The command. -/
  message : Message
  /-- How far it is. -/
  stage : ResponderStage
  deriving DecidableEq, Repr

/-- What somebody does who wants a reply. -/
inductive CallerStage where
  /-- Send the request. -/
  | asking (request : Request) (timeout : Nat)
  /-- Wait for what it comes to. -/
  | waiting (key : CorrelationKey)
  /-- Leave without learning anything. -/
  | leaving
  deriving DecidableEq, Repr

/-- Somebody outside of any job who waits for a reply. -/
structure Caller where
  /-- What it does next. -/
  stage : CallerStage
  /-- Whether requests can be settled as long as it is there. -/
  holds : Bool
  deriving DecidableEq, Repr

/-- Everything together at one instant. -/
structure Fleet where
  /-- The time. -/
  now : Nat
  /-- Whose turn it is. -/
  agenda : Agenda
  /-- What has happened, the earliest first. -/
  chronicle : Chronicle
  /-- The settings. -/
  config : Config
  /-- The channel. -/
  broker : Broker Listener
  /-- The devices in the order in which they were attached. -/
  devices : List Device
  /-- The commands that have reached devices. -/
  responders : List Responder
  /-- The requests. -/
  correlator : Correlator
  /-- Whether there is anybody left who settles requests. -/
  correlating : Bool
  /-- Whether requests are settled whether or not a caller needs it. -/
  held : Bool
  /-- Who waits for replies outside of jobs. -/
  callers : Table Nat Caller
  /-- The store. -/
  transactions : Transactions
  /-- The kinds of steps. -/
  registry : Registry
  /-- Who may run. -/
  permits : Permits
  /-- How many job numbers have been given out. -/
  submitted : Nat
  /-- The jobs that were submitted. -/
  jobs : Table JobId JobEntry
  /-- The notices that have not been read: the job, its state and the step. -/
  unread : List (JobId × JobState × Nat)

namespace Fleet

/-- A fleet in which nothing has been set up but the broker. -/
def new (config : Config) (store : UnreliableStore) (registry : Registry) : Fleet where
  now := 0
  agenda := .new [.delivery, .watcher]
  chronicle := []
  config
  broker := .new
  devices := []
  responders := []
  correlator := .new config 0
  correlating := false
  held := false
  callers := ∅
  transactions := .new store
  registry
  permits := .new config.maxConcurrentJobs
  submitted := 0
  jobs := ∅
  unread := []

/-- The time in whole milliseconds, as it is written into messages and records. -/
def nowMs (f : Fleet) : UInt64 := UInt64.ofNat (Nanos.toMillis f.now)

/-- Write down that something happened. -/
def chronicled (f : Fleet) (event : Event) : Fleet :=
  { f with chronicle := f.chronicle ++ [(f.now, event)] }

/-- Let a task go on. -/
def wake (f : Fleet) (task : Task) : Fleet := { f with agenda := f.agenda.wake task }

/-- Let a task sleep until a time. -/
def arm (f : Fleet) (task : Task) (time : Nat) : Fleet :=
  { f with agenda := f.agenda.arm task time }

/-- Let a task go to sleep anew until a time. -/
def rearm (f : Fleet) (task : Task) (time : Nat) : Fleet :=
  { f with agenda := f.agenda.rearm task time }

/-- Take away the timer of a task. -/
def disarm (f : Fleet) (task : Task) : Fleet := { f with agenda := f.agenda.disarm task }

/-- The tasks that wait for what a request comes to. -/
def waitersFor (f : Fleet) (key : CorrelationKey) : List Task :=
  (f.jobs.entries.filter fun e => e.2.awaited? = some key).map (fun e => .worker e.1) ++
    (f.callers.entries.filter fun e => e.2.stage = .waiting key).map fun e => .caller e.1

/-- Put the requests in a new state and wake everybody whose request is settled by it. -/
def setCorrelator (f : Fleet) (c : Correlator) : Fleet :=
  let fresh := c.settled.drop f.correlator.settled.length
  let f := { f with correlator := c }
  (fresh.flatMap fun s => f.waitersFor s.1).foldl wake f

/-- Hand a message to the broker. -/
def publish (f : Fleet) (m : Message) : Except Fault Unit × Fleet :=
  match f.broker.publish m with
  | .error fault => (.error fault, f)
  | .ok broker => (.ok (), ({ f with broker }.chronicled (.published m)).wake .delivery)

/-- Hand messages to the broker, one after the other. -/
def publishAll (f : Fleet) : List Message → List (Except Fault Unit) × Fleet
  | [] => ([], f)
  | m :: rest =>
    let (result, f) := f.publish m
    let (results, f) := publishAll f rest
    (result :: results, f)

/-- Send a request. -/
def send (f : Fleet) (request : Request) (timeout : Nat) : Except Fault Handle × Fleet :=
  let (result, c) := f.correlator.send f.now f.broker.publish request timeout
  let f := (f.setCorrelator c).wake .supervisor
  match result with
  | .error fault => (.error fault, f)
  | .ok (handle, broker) =>
    let m := c.message handle.key request f.now
    (.ok handle, ({ f with broker }.chronicled (.published m)).wake .delivery)

/-- Take in a message as a reply. -/
def onMessage (f : Fleet) (m : Message) : Fleet :=
  if f.correlating then f.setCorrelator (f.correlator.onMessage f.now m) else f

/-- Call a request off; says whether it was pending. -/
def cancel (f : Fleet) (key : CorrelationKey) : Bool × Fleet :=
  let (found, c) := f.correlator.cancel key
  (found, f.setCorrelator c)

/-- Call off all requests of a job; returns their number. -/
def cancelOwnedBy (f : Fleet) (job : JobId) : Nat × Fleet :=
  let (count, c) := f.correlator.cancelOwnedBy job
  (count, f.setCorrelator c)

/-- Settle all pending requests because the channel is torn down; returns their number. -/
def closeRequests (f : Fleet) : Nat × Fleet :=
  let (count, c) := f.correlator.close
  (count, f.setCorrelator c)

/-- When nobody is left who settles requests, those that are pending are given up. -/
def releaseCorrelator (f : Fleet) : Fleet :=
  if f.correlating && !f.held && !f.callers.values.any Caller.holds then
    ({ f with correlating := false }.setCorrelator f.correlator.abandon).disarm .supervisor
  else f

/-- Add a subscription; returns its number. -/
def subscribe (f : Fleet) (pattern : String) (listener : Listener) : Except Fault Nat × Fleet :=
  match f.broker.subscribe pattern listener with
  | .error fault => (.error fault, f)
  | .ok (id, broker) => (.ok id, { f with broker })

/-- Start to settle requests: from now on replies are listened to. -/
def startCorrelator (f : Fleet) : Except Fault Unit × Fleet :=
  match f.subscribe f.config.replyPattern .correlator with
  | (.error fault, f) => (.error fault, f)
  | (.ok _, f) =>
    (.ok (), { f with
      correlator := .new f.config f.now, correlating := true, held := true }.wake .supervisor)

/-- Attach a device. -/
def attach (f : Fleet) (d : Device) : Except Fault Unit × Fleet :=
  match f.subscribe d.commandPattern (.device f.devices.length) with
  | (.error fault, f) => (.error fault, f)
  | (.ok _, f) => (.ok (), { f with devices := f.devices ++ [d] })

/-- Close the broker. -/
def closeBroker (f : Fleet) : Fleet :=
  if f.broker.closed then f else { f with broker := f.broker.close }.wake .watcher

/-- Make the broker available or not. -/
def setAvailable (f : Fleet) (available : Bool) : Fleet :=
  { f with broker := f.broker.setAvailable available }

/-- The index of the device that was attached last under a name. -/
def deviceIndex? (f : Fleet) (id : String) : Option Nat :=
  ((List.range f.devices.length).filter fun i => f.devices[i]?.any (·.id = id)).getLast?

/-- Change a device. -/
def modifyDevice (f : Fleet) (index : Nat) (change : Device → Device) : Fleet :=
  { f with devices := f.devices.modify index change }

/-- Change what is known of a job. -/
def modifyJob (f : Fleet) (job : JobId) (change : JobEntry → JobEntry) : Fleet :=
  { f with jobs := f.jobs.modify job change }

/-- Let observers see a job as it was recorded, and send out a notice. -/
def announce (f : Fleet) (job : Job) : Fleet :=
  let f := (f.modifyJob job.id fun e => { e with snapshot := job }).chronicled
    (.recorded job.id job.state job.currentStep)
  { f with unread := f.unread ++ [(job.id, job.state, job.currentStep)] }.wake .reader

/-- The hook that announces a job after its record has been committed. -/
def announcing : Hook Fleet Job := fun _ job _ f => (.ok (), f.announce job)

/-- Record a job. It is announced only when the store has taken the record. Returns the job with
the time of the record. -/
def persist (f : Fleet) (job : Job) : Except Fault Unit × Job × Fleet :=
  let job := { job with updatedAtMs := f.nowMs }
  let (tx, m) := f.transactions.begin f.now
  let tx := tx.put (Job.key job.id) job.toRecord.toBytes
  match m.conclude tx f.now (.ok job) [announcing]
      (f.chronicled (.committed tx.id tx.toWrites)) with
  | (.error fault, m, _) => (.error fault, job, { f with transactions := m })
  | (.ok _, m, f) => (.ok (), job, { f with transactions := m })

end Fleet

end Flotilla
