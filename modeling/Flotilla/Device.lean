import Flotilla.Fields
import Flotilla.Message
import Flotilla.Topic

/-!
# Devices

A simulated device listens to the commands under its name and answers each on its reply topic.
It takes the version that it is told to deploy, tells the version it has, and acknowledges a
restart; anything else it refuses. It can be made to keep silent and to refuse deployments.
-/

namespace Flotilla

/-- A simulated device. -/
structure Device where
  /-- Its name. -/
  id : String
  /-- The first levels of its topics. -/
  root : String
  /-- The version it runs. -/
  version : String
  /-- How long it takes to answer. -/
  delay : Nat
  /-- Whether it leaves commands unanswered. -/
  silent : Bool
  /-- How many deployments it will still refuse. -/
  failingDeploys : UInt32
  /-- How many commands have reached it. -/
  received : Nat
  deriving DecidableEq, Repr

namespace Device

/-- A device that has received nothing yet. -/
def new (id root version : String) (delay : Nat) : Device := ⟨id, root, version, delay, false, 0, 0⟩

/-- The pattern of the commands to it. -/
def commandPattern (d : Device) : String := Topic.anyCommand d.root d.id

/-- The topic it answers on. -/
def replyTopic (d : Device) : String := Topic.reply d.root d.id

/-- Note that a command came in. -/
def receive (d : Device) : Device := { d with received := d.received + 1 }

/-- Carry out a deployment. -/
def deploy (d : Device) (payload : String) : String × Device :=
  if d.failingDeploys ≠ 0 then
    ("error: flash write failed", { d with failingDeploys := d.failingDeploys - 1 })
  else
    match (Fields.parse payload).get? "version" with
    | some version => ("ok", { d with version })
    | none => ("error: missing version", d)

/-- Carry out a command; returns the answer. -/
def execute (d : Device) (command payload : String) : String × Device :=
  if command = "deploy" then d.deploy payload
  else if command = "status" then ("version=" ++ d.version, d)
  else if command = "reboot" then ("ok", d)
  else ("error: unsupported command " ++ command, d)

/-- Answer a message that came in on a command topic. -/
def answer (d : Device) (m : Message) (nowMs : UInt64) : Message × Device :=
  let (text, d) := d.execute (Topic.lastLevel m.topic) m.text
  ((m.reply d.replyTopic (Text.utf8 text) nowMs).withSender d.id, d)

end Device

end Flotilla
