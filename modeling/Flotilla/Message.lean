import Flotilla.Fault
import Flotilla.Wire.Field

/-!
# Messages

What travels between the orchestrator and its devices, and its binary form: five fields in the
order of their numbers, those with an empty value left out. A reader takes the last value of a
field that comes twice and skips fields it does not know.
-/

namespace Flotilla

/-- A message on a topic. -/
structure Message where
  /-- The topic it is published on. -/
  topic : String
  /-- The request that it belongs to, or 0. -/
  correlationId : CorrelationKey
  /-- When it was made, in milliseconds. -/
  sentAtMs : UInt64
  /-- What it says. -/
  payload : Bytes
  /-- Who sent it. -/
  sender : String
  deriving DecidableEq, Repr

namespace Message

/-- A message without sender. -/
def new (topic : String) (correlationId : CorrelationKey) (payload : Bytes) (sentAtMs : UInt64) :
    Message :=
  ⟨topic, correlationId, sentAtMs, payload, ""⟩

/-- The message with its sender named. -/
def withSender (m : Message) (sender : String) : Message := { m with sender }

/-- The reply to a message: on another topic, for the same request. -/
def reply (m : Message) (topic : String) (payload : Bytes) (sentAtMs : UInt64) : Message :=
  new topic m.correlationId payload sentAtMs

/-- The payload as text. -/
def text (m : Message) : String := Text.lossy m.payload

/-- The message in which no field is set. -/
def blank : Message := ⟨"", 0, 0, [], ""⟩

/-- The binary form. -/
def toBytes (m : Message) : Bytes :=
  Wire.putText 1 m.topic ++ Wire.putNumber 2 m.correlationId.toNat ++
    Wire.putNumber 3 m.sentAtMs.toNat ++ Wire.putBytes 4 m.payload ++ Wire.putText 5 m.sender

/-- Take over the value of a field; a field that is not known changes nothing. -/
def absorb (m : Message) (f : Wire.Field) : Option Message :=
  if f.number = 1 then f.value.text?.map fun s => { m with topic := s }
  else if f.number = 2 then
    f.value.number?.map fun n => { m with correlationId := UInt64.ofNat n }
  else if f.number = 3 then f.value.number?.map fun n => { m with sentAtMs := UInt64.ofNat n }
  else if f.number = 4 then f.value.bytes?.map fun b => { m with payload := b }
  else if f.number = 5 then f.value.text?.map fun s => { m with sender := s }
  else some m

/-- Read the binary form. -/
def ofBytes? (b : Bytes) : Option Message :=
  (Wire.readFields Wire.bodyDepth b).bind fun fields => fields.foldlM absorb blank

end Message

end Flotilla
