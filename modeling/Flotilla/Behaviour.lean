import Flotilla.Correlator
import Flotilla.Job
import Flotilla.Transaction.Script

/-!
# Step behaviours

What a step does is a program. Beside working with the store it can send commands to the job's
device and await their replies, ask for a stop of its own job, and leave notes. It is given a
context: which attempt of which step of which job it is, and the properties that its definition
declares.
-/

namespace Flotilla

/-- What a behaviour knows of the attempt that it is. -/
structure StepContext where
  /-- The job. -/
  job : JobId
  /-- The job's device. -/
  target : String
  /-- The index of the step. -/
  step : Nat
  /-- The number of the attempt, from 1 on. -/
  attempt : UInt32
  /-- The key of the step's definition. -/
  definition : String
  /-- The properties of the step that its definition declares. -/
  properties : Table String String
  /-- The settings. -/
  config : Config
  deriving DecidableEq, Repr

namespace StepContext

/-- A property, if it is set. -/
def property? (ctx : StepContext) (name : String) : Option String := ctx.properties.get? name

/-- A property that has to be set. -/
def require (ctx : StepContext) (name : String) : Except Fault String :=
  match ctx.property? name with
  | some value => .ok value
  | none => .error (.missingProperty ctx.definition name)

end StepContext

/-- What a behaviour can leave behind about something that it did. -/
inductive StepNote where
  /-- It failed. -/
  | fault (fault : Fault)
  /-- The value of a property. -/
  | text (value : Option String)
  /-- What it was told about its attempt. -/
  | context (ctx : StepContext)
  /-- Time has passed. -/
  | slept
  /-- The reply to a request. -/
  | reply (key : CorrelationKey) (text : String)
  /-- The replies to several requests. -/
  | replies (texts : List String)
  /-- A transaction. -/
  | report (report : TxReport)
  /-- Something that has no other result was done. -/
  | done

/-- Questions of a step behaviour. -/
inductive StepAsk where
  /-- Work with the store. -/
  | storing (q : StoringAsk)
  /-- Send a command to the job's device; answered with the key of the request. -/
  | send (command : String) (payload : Bytes) (timeout : Nat)
  /-- Wait for what a request comes to. -/
  | await (key : CorrelationKey)
  /-- Ask for a stop of the own job. -/
  | stopSelf
  /-- Leave a note. -/
  | note (note : StepNote)

/-- Programs that a step can run. -/
def Stepping : Signature where
  Ask := StepAsk
  Answer
    | .storing q => Storing.Answer q
    | .send .. => Except Fault CorrelationKey
    | .await _ => Outcome
    | .stopSelf => Except Fault Unit
    | .note _ => Unit

/-- What a step does in one attempt. -/
abbrev Behaviour := StepContext → Program Stepping (Except Fault Unit)

namespace Stepping

/-- Work with the store. -/
def storing {α : Type} : Program Storing α → Program Stepping α
  | .done value => .done value
  | .ask q next => .ask (S := Stepping) (.storing q) fun answer => storing (next answer)

/-- Send a command to the job's device. -/
def send (command : String) (payload : Bytes) (timeout : Nat) :
    Program Stepping (Except Fault CorrelationKey) :=
  Program.query (S := Stepping) (.send command payload timeout)

/-- Wait for what a request comes to. -/
def await (key : CorrelationKey) : Program Stepping Outcome :=
  Program.query (S := Stepping) (.await key)

/-- Ask for a stop of the own job. -/
def stopSelf : Program Stepping (Except Fault Unit) := Program.query (S := Stepping) .stopSelf

/-- Leave a note. -/
def note (note : StepNote) : Program Stepping Unit := Program.query (S := Stepping) (.note note)

/-- Let time pass. -/
def sleep (span : Nat) : Program Stepping Unit := storing (Storing.sleep span)

/-- Send a command and wait for its reply. -/
def request (command : String) (payload : Bytes) (timeout : Nat) : Program Stepping Outcome := do
  match ← send command payload timeout with
  | .error fault => pure (.error fault)
  | .ok key => await key

end Stepping

end Flotilla
