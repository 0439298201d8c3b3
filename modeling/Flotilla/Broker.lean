import Flotilla.Message
import Flotilla.Subscription

/-!
# The broker

A broker takes messages in, and its delivery hands them, one after the other and in the order in
which they came, to the subscriptions whose patterns match at that time. It can be unavailable for a
while and it can be closed for good; either way it takes no message. Closing aborts the delivery,
and with it goes what still waits. But an abort does not reach a delivery that is at work: it goes
on until it next yields.
-/

namespace Flotilla

/-- A broker and the messages that wait in it. -/
structure Broker (α : Type) where
  /-- Who is listening. -/
  subscriptions : Subscriptions α
  /-- Messages taken and not handed out yet, oldest first. -/
  inbox : List Message
  /-- Whether messages are taken at the moment. -/
  available : Bool
  /-- Whether the broker is closed. -/
  closed : Bool
  /-- Whether the delivery is at work: it has been woken and has not yielded since. -/
  delivering : Bool
  deriving DecidableEq, Repr

namespace Broker

variable {α : Type}

/-- A broker that is open and has no subscriptions. -/
def new : Broker α := ⟨.empty, [], true, false, false⟩

/-- The name of this kind of channel. -/
def name : String := "memory"

/-- Take a message. -/
def publish (b : Broker α) (m : Message) : Except Fault (Broker α) :=
  if b.closed then .error (.channelUnavailable m.topic "broker closed")
  else if !b.available then .error (.channelUnavailable m.topic "broker unavailable")
  else .ok { b with inbox := b.inbox ++ [m] }

/-- Add a subscription; returns its number. -/
def subscribe (b : Broker α) (pattern : String) (listener : α) : Except Fault (Nat × Broker α) :=
  if b.closed then .error (.channelUnavailable pattern "broker closed")
  else
    let (id, subscriptions) := b.subscriptions.add pattern listener
    .ok (id, { b with subscriptions })

/-- Remove a subscription. -/
def unsubscribe (b : Broker α) (id : Nat) : Broker α :=
  { b with subscriptions := (b.subscriptions.remove id).2 }

/-- Make the broker available or not. -/
def setAvailable (b : Broker α) (available : Bool) : Broker α := { b with available }

/-- Stop the delivery as soon as it is not at work, with all that waits for it. -/
def abort (b : Broker α) : Broker α := if b.delivering then b else { b with inbox := [] }

/-- Close the broker. -/
def close (b : Broker α) : Broker α :=
  if b.closed then b else { b with closed := true, available := false }.abort

/-- The delivery sets to work, unless it has been stopped. -/
def wake (b : Broker α) : Broker α := if b.closed then b else { b with delivering := true }

/-- The delivery yields, which ends it once the broker is closed. -/
def rest (b : Broker α) : Broker α :=
  let b := { b with delivering := false }
  if b.closed then b.abort else b

/-- What the delivery does next while it is at work: the oldest message that waits, with the
subscriptions it goes to now. -/
def deliver? (b : Broker α) : Option (Message × List (Subscription α) × Broker α) :=
  if b.delivering then
    match b.inbox with
    | [] => none
    | m :: inbox => some (m, b.subscriptions.matching m.topic, { b with inbox })
  else none

end Broker

end Flotilla
