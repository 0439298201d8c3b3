import Flotilla.Fleet.Jobs

/-!
# Programs of steps in a fleet

A step's program runs until it ends or has to wait: for a request to be settled or for time to
pass. Whatever else it asks is answered at once.
-/

namespace Flotilla

/-- What is written down about an answer of the store: only commits leave a trace. -/
def StoreAsk.event? : (q : StoreAsk) → q.Answer → Option Event
  | .commit tx, .ok _ => some (.committed tx.id tx.toWrites)
  | _, _ => none

namespace Fleet

/-- Answer a question to the store. -/
def answerStore (f : Fleet) (q : StoreAsk) : q.Answer × Fleet :=
  let (answer, m) := q.answer f.now f.transactions
  let f := { f with transactions := m }
  (answer, match q.event? answer with
    | some event => f.chronicled event
    | none => f)

/-- Run a program on behalf of a job until it ends or has to wait. -/
def run {α : Type} (job : JobId) (target : String) :
    Program Stepping α → Fleet → (Suspension α ⊕ α) × Fleet
  | .done value, f => (.inr value, f)
  | .ask (.storing (.store q)) next, f =>
    let (answer, f) := f.answerStore q
    run job target (next answer) f
  | .ask (.storing (.sleep span)) next, f =>
    if span = 0 then run job target (next ()) f
    else (.inl (.timer (Nanos.wakeTime f.now span) next), f)
  | .ask (.send command payload timeout) next, f =>
    let (result, f) := f.send ⟨target, command, payload, some job⟩ timeout
    run job target (next (result.map Handle.key)) f
  | .ask (.await key) next, f =>
    match f.correlator.outcome? key with
    | some outcome => run job target (next outcome) f
    | none => (.inl (.reply key next), f)
  | .ask .stopSelf next, f =>
    let (result, f) := f.stop job
    run job target (next result) f
  | .ask (.note note) next, f => run job target (next ()) (f.chronicled (.noted job note))

/-- The rest of a program that waits, if it no longer has to. -/
def resume? {α : Type} (f : Fleet) : Suspension α → Option (Program Stepping α)
  | .reply key next => (f.correlator.outcome? key).map next
  | .timer wakeAt next => if wakeAt ≤ f.now then some (next ()) else none

end Fleet

end Flotilla
