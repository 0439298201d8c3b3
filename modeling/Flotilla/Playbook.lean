import Flotilla.Registry

/-!
# Scripted steps

A playbook is a step behaviour as data: a list of actions that an attempt does in order, each of
which leaves a note. An action can be limited to the first attempts. The first action that fails
ends the attempt.
-/

namespace Flotilla

/-- A command that a scripted step sends. -/
structure CommandScript where
  /-- The command. -/
  command : String
  /-- What goes with it. -/
  payload : Bytes
  /-- How long it may take. -/
  timeout : Nat
  deriving DecidableEq, Repr

/-- One thing that a scripted step does. -/
inductive StepAction where
  /-- Fail. -/
  | fail (fault : Fault)
  /-- Read a property that has to be set. -/
  | require (name : String)
  /-- Read a property. -/
  | property (name : String)
  /-- Look at the context. -/
  | context
  /-- Let time pass. -/
  | sleep (span : Nat)
  /-- Send a command and await its reply; with the standard time limit unless one is given. -/
  | request (command : String) (payload : Bytes) (timeout : Option Nat)
  /-- Send several commands and then, if so wanted, await their replies in order. -/
  | sendAll (commands : List CommandScript) (wait : Bool)
  /-- Run a transaction. -/
  | transaction (work : List TxAction) (hooks : List HookScript)
  /-- Ask for a stop of the own job. -/
  | stopSelf

/-- An action, and the last attempt that does it. -/
structure PlaybookEntry where
  /-- The action. -/
  action : StepAction
  /-- The last attempt that does it; every attempt does when absent. -/
  lastAttempt : Option Nat

/-- What a scripted step does, in order. -/
abbrev Playbook := List PlaybookEntry

namespace StepAction

/-- Send commands in order up to the first that is refused. -/
def sendEach : List CommandScript → Program Stepping (Except Fault (List CorrelationKey))
  | [] => pure (.ok [])
  | c :: rest => do
    match ← Stepping.send c.command c.payload c.timeout with
    | .error fault => pure (.error fault)
    | .ok key => do
      let keys ← sendEach rest
      pure (keys.map (key :: ·))

/-- Await replies in order up to the first request that came to nothing. -/
def awaitEach : List CorrelationKey → Program Stepping (Except Fault (List String))
  | [] => pure (.ok [])
  | key :: rest => do
    match ← Stepping.await key with
    | .error fault => pure (.error fault)
    | .ok reply => do
      let texts ← awaitEach rest
      pure (texts.map (reply.text :: ·))

/-- Do an action; its note, or the fault that ends the attempt. -/
def run (ctx : StepContext) : StepAction → Program Stepping (Except Fault StepNote)
  | .fail fault => pure (.error fault)
  | .require name => pure ((ctx.require name).map fun value => .text (some value))
  | .property name => pure (.ok (.text (ctx.property? name)))
  | .context => pure (.ok (.context ctx))
  | .sleep span => do
    Stepping.sleep span
    pure (.ok .slept)
  | .request command payload timeout => do
    let outcome ← Stepping.request command payload (timeout.getD ctx.config.requestTimeout)
    pure (outcome.map fun reply => .reply reply.key reply.text)
  | .sendAll commands wait => do
    match ← sendEach commands with
    | .error fault => pure (.error fault)
    | .ok keys => do
      let texts ← awaitEach (if wait then keys else [])
      pure (texts.map .replies)
  | .transaction work hooks => do
    let report ← Stepping.storing (TxAction.execute work hooks)
    pure (report.result.map fun _ => .report report)
  | .stopSelf => do
    let result ← Stepping.stopSelf
    pure (result.map fun _ => .done)

end StepAction

/-- What a playbook does in an attempt. -/
def Playbook.run (playbook : Playbook) : Behaviour := fun ctx =>
  match playbook with
  | [] => pure (.ok ())
  | entry :: rest =>
    if entry.lastAttempt.any (· < ctx.attempt.toNat) then run rest ctx
    else do
      match ← entry.action.run ctx with
      | .error fault => do
        Stepping.note (.fault fault)
        pure (.error fault)
      | .ok note => do
        Stepping.note note
        run rest ctx

end Flotilla
