import Flotilla.Frame
import Flotilla.Subscription

/-!
# Links

A link carries framed messages over a stream to one peer. Messages to send are queued and written
as frames in order; bytes that come in are cut into frames, and each message is handed to the
subscriptions whose patterns match. The task of a link does one thing at a time: it writes a frame
to its end, or gives out all messages that came in, before it turns to anything else. A message too
large for a frame and a frame that cannot be read both drop the link for good, as does the end of
the stream; a link that has dropped takes no message. A link that nobody holds any more drops when
everything is sent.
-/

namespace Flotilla

/-- What the task of a link does. -/
inductive Link.Stage where
  /-- It waits for messages to send and for bytes to come in. -/
  | waiting
  /-- It writes a frame, of which these bytes are left. -/
  | writing (rest : Bytes)
  /-- It gives out the messages that came in. -/
  | giving
  /-- It has ended: the link has dropped. -/
  | ended
  deriving DecidableEq, Repr

/-- A link to a peer. -/
structure Link (α : Type) where
  /-- Who is listening. -/
  subscriptions : Subscriptions α
  /-- Messages taken and not turned to yet, oldest first. -/
  outbox : List Message
  /-- The bytes written so far. -/
  written : Bytes
  /-- The bytes that came in and have not been given out as frames. -/
  decoder : Frame.Decoder
  /-- What the task does. -/
  stage : Link.Stage
  deriving DecidableEq, Repr

namespace Link

variable {α : Type}

/-- A link that nothing has passed over. -/
def new : Link α := ⟨.empty, [], [], .new, .waiting⟩

/-- How many messages can wait to be sent; who has more to send waits for room. -/
def outboxLimit : Nat := 256

/-- The name of this kind of channel. -/
def name : String := "tcp"

/-- Make a link to an address, if the peer there accepts it. -/
def connect (address : String) (refusal : Option String) : Except Fault (Link α) :=
  match refusal with
  | some reason => .error (.channelUnavailable address reason)
  | none => .ok new

/-- Whether the link has dropped. -/
def isClosed (l : Link α) : Bool := l.stage = .ended

/-- Whether one more message can wait. -/
def hasRoom (l : Link α) : Bool := l.outbox.length < outboxLimit

/-- Take a message to send, for which there is room. -/
def publish (l : Link α) (m : Message) : Except Fault (Link α) :=
  if l.isClosed then .error (.channelUnavailable m.topic "link closed")
  else .ok { l with outbox := l.outbox ++ [m] }

/-- Add a subscription; returns its number. -/
def subscribe (l : Link α) (pattern : String) (listener : α) : Nat × Link α :=
  let (id, subscriptions) := l.subscriptions.add pattern listener
  (id, { l with subscriptions })

/-- Remove a subscription. -/
def unsubscribe (l : Link α) (id : Nat) : Link α :=
  { l with subscriptions := (l.subscriptions.remove id).2 }

/-- Drop the link. -/
def drop (l : Link α) : Link α := { l with stage := .ended, outbox := [] }

/-- Nobody holds the link any more. -/
def letGo (l : Link α) : Link α :=
  match l.stage, l.outbox with
  | .waiting, [] => l.drop
  | _, _ => l

/-- Turn to the oldest message that waits. -/
def takeUp (l : Link α) : Link α :=
  match l.stage, l.outbox with
  | .waiting, m :: outbox =>
    match Frame.encode m with
    | .error _ => l.drop
    | .ok frame => { l with outbox, stage := .writing frame }
  | _, _ => l

/-- Write as many of the bytes that are left of a frame as the stream takes. -/
def write (l : Link α) (count : Nat) : Link α :=
  match l.stage with
  | .writing rest =>
    { l with
      written := l.written ++ rest.take count
      stage := if rest.length ≤ count then .waiting else .writing (rest.drop count) }
  | _ => l

/-- Take in bytes. -/
def read (l : Link α) (data : Bytes) : Link α :=
  match l.stage with
  | .waiting => { l with decoder := l.decoder.extend data, stage := .giving }
  | _ => l

/-- Give out the next message that came in; returns it with the subscriptions that it is handed
to. -/
def giveOut (l : Link α) : Option (Message × List (Subscription α)) × Link α :=
  match l.stage with
  | .giving =>
    match l.decoder.next with
    | (.message m, decoder) => (some (m, l.subscriptions.matching m.topic), { l with decoder })
    | (.incomplete, _) => (none, { l with stage := .waiting })
    | (.refused _, _) => (none, l.drop)
  | _ => (none, l)

/-- The stream ends or breaks. While messages are given out that goes unheard. -/
def hangUp (l : Link α) : Link α :=
  match l.stage with
  | .giving => l
  | _ => l.drop

end Link

end Flotilla
