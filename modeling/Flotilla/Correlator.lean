import Flotilla.Config
import Flotilla.Message
import Flotilla.Supervisor

/-!
# Requests and their replies

Each request gets a key of its own, a place in the table of pending requests and a deadline. It
leaves the table exactly once: by its reply, at its deadline, when it is called off, or when the
channel is torn down; a request whose message the channel refuses is withdrawn before anybody
could wait for it. What a request came to is kept for whoever waits for it.
-/

namespace Flotilla

/-- A command to one device. -/
structure Request where
  /-- The device. -/
  target : String
  /-- The command. -/
  command : String
  /-- What goes with it. -/
  payload : Bytes
  /-- The job on whose behalf it is sent. -/
  owner : Option JobId
  deriving DecidableEq, Repr

/-- The message that answered a request. -/
structure Response where
  /-- The request. -/
  key : CorrelationKey
  /-- The topic it came in on. -/
  topic : String
  /-- Who sent it. -/
  sender : String
  /-- What it says. -/
  payload : Bytes
  /-- When it came in. -/
  receivedAt : Nat
  deriving DecidableEq, Repr

/-- The payload of a response as text. -/
def Response.text (r : Response) : String := Text.lossy r.payload

/-- What a request came to. -/
abbrev Outcome := Except Fault Response

/-- A request that waits for its reply. -/
structure Pending where
  /-- The device. -/
  target : String
  /-- The topic on which the reply has to come. -/
  replyTopic : String
  /-- The job on whose behalf it was sent. -/
  owner : Option JobId
  /-- How long it was given. -/
  timeout : Nat
  deriving DecidableEq, Repr

/-- How many requests were settled in which way, and how many messages were for none. -/
structure Tally where
  responses : Nat
  timeouts : Nat
  cancellations : Nat
  teardowns : Nat
  /-- Messages with a key that nothing was pending for. -/
  discarded : Nat
  deriving DecidableEq, Repr

/-- What the sender of a request is given. -/
structure Handle where
  /-- The key of the request. -/
  key : CorrelationKey
  /-- When it times out. -/
  deadline : Nat
  deriving DecidableEq, Repr

/-- The requests of one channel. -/
structure Correlator where
  /-- The settings. -/
  config : Config
  /-- How many keys have been given out. -/
  sent : Nat
  /-- The requests that wait. -/
  pending : Table CorrelationKey Pending
  /-- Their deadlines. -/
  supervisor : Supervisor Unit
  /-- What has become of the others. -/
  tally : Tally
  /-- What each settled request came to, the earliest first. -/
  settled : List (CorrelationKey × Outcome)
  deriving DecidableEq, Repr

namespace Correlator

/-- The name that requests are sent under. -/
def senderName : String := "orchestrator"

/-- A correlator made at the time `now`. -/
def new (config : Config) (now : Nat) : Correlator where
  config
  sent := 0
  pending := ∅
  supervisor := .new config.granularity now
  tally := ⟨0, 0, 0, 0, 0⟩
  settled := []

/-- What a request came to, once it is settled. -/
def outcome? (c : Correlator) (key : CorrelationKey) : Option Outcome :=
  Table.lookup key c.settled

/-- The message that carries a request. -/
def message (c : Correlator) (key : CorrelationKey) (request : Request) (now : Nat) : Message :=
  (Message.new (c.config.commandTopic request.target request.command) key request.payload
    (UInt64.ofNat (Nanos.toMillis now))).withSender senderName

/-- Take a request out of the table and call its deadline off. -/
def drop (c : Correlator) (key : CorrelationKey) : Correlator :=
  { c with pending := c.pending.erase key, supervisor := (c.supervisor.cancel key).2 }

/-- Note what a request came to. -/
def settle (c : Correlator) (key : CorrelationKey) (outcome : Outcome) : Correlator :=
  { c with settled := c.settled ++ [(key, outcome)] }

/-- The fault that a refused request is reported with: one of the channel as it is, any other
under the topic of the command. -/
def refusal (topic : String) : Fault → Fault
  | .channelUnavailable topic reason => .channelUnavailable topic reason
  | fault => .channelUnavailable topic fault.message

/-- Enter a request under a key. -/
def register (c : Correlator) (key : CorrelationKey) (request : Request) (deadline timeout : Nat) :
    Except Fault Correlator :=
  if c.pending.contains key then
    .error (.invariant ("correlation key " ++ Text.decimal key.toNat ++ " already pending"))
  else do
    let supervisor ← c.supervisor.scheduleAt key deadline ()
    pure { c with
      supervisor
      pending := c.pending.set key
        ⟨request.target, c.config.replyTopic request.target, request.owner, timeout⟩ }

/-- Enter a request and hand its message to `publish`, which yields the channel afterwards. A
request that is refused is withdrawn. -/
def send {β : Type} (c : Correlator) (now : Nat) (publish : Message → Except Fault β)
    (request : Request) (timeout : Nat) : Except Fault (Handle × β) × Correlator :=
  let key := UInt64.ofNat (c.sent + 1)
  let c := { c with sent := c.sent + 1 }
  let deadline := c.supervisor.deadlineAfter now timeout
  match c.register key request deadline timeout with
  | .error fault => (.error fault, c)
  | .ok c =>
    let message := c.message key request now
    match publish message with
    | .error fault => (.error (refusal message.topic fault), c.drop key)
    | .ok channel => (.ok (⟨key, deadline⟩, channel), c)

/-- Take in a message. The reply to a pending request has to come on its own reply topic; a
message with the key of nothing that is pending is counted, and one without key is not. -/
def onMessage (c : Correlator) (now : Nat) (m : Message) : Correlator :=
  let key := m.correlationId
  if key = 0 then c
  else
    match c.pending.get? key with
    | none => { c with tally := { c.tally with discarded := c.tally.discarded + 1 } }
    | some request =>
      if request.replyTopic ≠ m.topic then c
      else
        let c := (c.drop key).settle key (.ok ⟨key, m.topic, m.sender, m.payload, now⟩)
        { c with tally := { c.tally with responses := c.tally.responses + 1 } }

/-- Call a request off; says whether it was pending. -/
def cancel (c : Correlator) (key : CorrelationKey) : Bool × Correlator :=
  match c.pending.get? key with
  | none => (false, c)
  | some _ =>
    let c := (c.drop key).settle key (.error (.cancelled key))
    (true, { c with tally := { c.tally with cancellations := c.tally.cancellations + 1 } })

/-- The pending requests of a job. -/
def keysOwnedBy (c : Correlator) (job : JobId) : List CorrelationKey :=
  (c.pending.filter fun _ p => p.owner = some job).keys

/-- Call off all requests of a job; returns their number. -/
def cancelOwnedBy (c : Correlator) (job : JobId) : Nat × Correlator :=
  (c.keysOwnedBy job).foldl
    (fun r key =>
      let (found, c) := r.2.cancel key
      (if found then r.1 + 1 else r.1, c))
    (0, c)

/-- The reason that requests are given when the channel is torn down. -/
def tornDown : String := "channel torn down while request was pending"

/-- Settle a pending request because the channel is torn down. -/
def tearDown (c : Correlator) (key : CorrelationKey) (request : Pending) : Correlator :=
  let c := (c.drop key).settle key (.error (.channelUnavailable request.replyTopic tornDown))
  { c with tally := { c.tally with teardowns := c.tally.teardowns + 1 } }

/-- Settle all pending requests because the channel is torn down; returns their number. -/
def close (c : Correlator) : Nat × Correlator :=
  (c.pending.size, c.pending.entries.foldl (fun c e => c.tearDown e.1 e.2) c)

/-- Settle a request whose deadline fired. -/
def expire (c : Correlator) (key : CorrelationKey) : Correlator :=
  match c.pending.get? key with
  | none => c
  | some request =>
    let c := { c with pending := c.pending.erase key }.settle key
      (.error (.requestTimeout key request.timeout))
    { c with tally := { c.tally with timeouts := c.tally.timeouts + 1 } }

/-- Let the supervisor of the deadlines run. -/
def pollDeadlines (c : Correlator) (now : Nat) : Correlator :=
  let (fired, supervisor) := c.supervisor.poll now
  fired.foldl (fun c e => c.expire e.1) { c with supervisor }

/-- Give up all pending requests uncounted: nobody is left who could settle them. -/
def abandon (c : Correlator) : Correlator :=
  c.pending.entries.foldl (fun c e => (c.drop e.1).settle e.1 (.error (.cancelled e.1))) c

/-- How many requests to a device are pending. -/
def pendingFor (c : Correlator) (target : String) : Nat :=
  (c.pending.values.filter (·.target = target)).length

end Correlator

end Flotilla
