import Flotilla.Fleet.Worker

/-!
# Tasks of a fleet

One turn of each task. The broker's delivery hands out one message in a turn; the supervisor of
the deadlines settles all requests that are due; a device counts a command, takes its time and
answers; a caller sends its request and waits for what it comes to; the reader of the notices
reads those that have come.
-/

namespace Flotilla.Fleet

/-- Hand a message to a listener. -/
def handTo (f : Fleet) (m : Message) (s : Subscription Listener) : Fleet :=
  match s.listener with
  | .observer name => f.chronicled (.delivered s.id name m)
  | .device index =>
    let number := f.responders.length
    { f with responders := f.responders ++ [Responder.mk index m .received] }.wake
      (.responder number)
  | .correlator => f.onMessage m

/-- One turn of the broker's delivery: it sets to work, and yields when nothing waits. -/
def deliveryTurn (f : Fleet) : Turn :=
  match f.broker.wake.deliver? with
  | none => .waits { f with broker := f.broker.rest }
  | some (m, subscriptions, broker) =>
    .goesOn (subscriptions.foldl (fun f s => f.handTo m s) { f with broker })

/-- One turn of the supervisor: settle what is due, and sleep until the next deadline. Whenever it
is called it goes to sleep anew, also when the next deadline is the same as before. -/
def supervisorTurn (f : Fleet) : Turn :=
  if f.correlating then
    let f := f.setCorrelator (f.correlator.pollDeadlines f.now)
    match f.correlator.supervisor.asleepUntil with
    | some deadline => .waits (f.rearm .supervisor deadline)
    | none => .waits (f.disarm .supervisor)
  else .waits f

/-- One turn of the watcher: once the broker is closed, nothing that is pending can be answered. -/
def watcherTurn (f : Fleet) : Turn :=
  if f.broker.closed then
    let f := f.chronicled .closed
    .waits (if f.correlating then f.closeRequests.2 else f)
  else .waits f

/-- One turn of the reader of the notices. -/
def readerTurn (f : Fleet) : Turn :=
  let read (f : Fleet) (n : JobId × JobState × Nat) : Fleet :=
    f.chronicled (.noticed n.1 n.2.1 n.2.2)
  .waits (f.unread.foldl read { f with unread := [] })

/-- Change a command on its way through a device. -/
def modifyResponder (f : Fleet) (index : Nat) (stage : ResponderStage) : Fleet :=
  { f with responders := f.responders.modify index fun r => { r with stage } }

/-- Let a device answer a command. An answer that the broker does not take is lost. -/
def respond (f : Fleet) (index : Nat) (r : Responder) (d : Device) : Turn :=
  let (m, d) := d.answer r.message f.nowMs
  let f := (f.modifyDevice r.device fun _ => d).modifyResponder index .gone
  .waits (f.publish m).2

/-- One turn of a command on its way through a device. -/
def responderTurn (f : Fleet) (index : Nat) : Turn :=
  match f.responders[index]? with
  | none => .waits f
  | some r =>
    match f.devices[r.device]? with
    | none => .waits f
    | some d =>
      match r.stage with
      | .received =>
        let f := f.modifyDevice r.device Device.receive
        if d.silent then .waits (f.modifyResponder index .gone)
        else if d.delay = 0 then f.respond index r d.receive
        else
          let wakeAt := Nanos.wakeTime f.now d.delay
          .waits ((f.modifyResponder index (.delaying wakeAt)).arm (.responder index) wakeAt)
      | .delaying wakeAt =>
        if wakeAt ≤ f.now then f.respond index r d else .waits f
      | .gone => .waits f

/-- A caller leaves. -/
def callerLeaves (f : Fleet) (number : Nat) : Turn :=
  .waits { f with callers := f.callers.erase number }.releaseCorrelator

/-- A caller learns what its request came to, and leaves. -/
def callerLearns (f : Fleet) (number : Nat) (outcome : Outcome) : Turn :=
  (f.chronicled (.settled number outcome)).callerLeaves number

/-- One turn of a caller. -/
def callerTurn (f : Fleet) (number : Nat) : Turn :=
  match f.callers.get? number with
  | none => .waits f
  | some c =>
    match c.stage with
    | .asking request timeout =>
      match f.send request timeout with
      | (.error fault, f) => f.callerLearns number (.error fault)
      | (.ok handle, f) =>
        .goesOn { f with callers := f.callers.set number { c with stage := .waiting handle.key } }
    | .waiting key =>
      match f.correlator.outcome? key with
      | some outcome => f.callerLearns number outcome
      | none => .waits f
    | .leaving => f.callerLeaves number

/-- One turn of a task. -/
def turn (f : Fleet) : Task → Turn
  | .delivery => f.deliveryTurn
  | .supervisor => f.supervisorTurn
  | .watcher => f.watcherTurn
  | .reader => f.readerTurn
  | .responder index => f.responderTurn index
  | .caller number => f.callerTurn number
  | .worker job => f.workerTurn job

end Flotilla.Fleet
