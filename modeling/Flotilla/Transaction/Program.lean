import Flotilla.Program
import Flotilla.Transaction

/-!
# Transactions in programs

A program can open a transaction, read and write through it and let time pass in between. Its
commit and its hooks follow the rule of `Transactions.conclude`; only that other commits may come
between its reads and its own.
-/

namespace Flotilla

/-- Questions to a store that are answered at once. -/
inductive StoreAsk where
  /-- The time. -/
  | now
  /-- A new transaction. -/
  | begin
  /-- What is under a key. -/
  | read (key : String)
  /-- Commit a transaction; answered with the store afterwards. -/
  | commit (tx : Tx)
  /-- A commit by somebody else, straight to the store. -/
  | commitBehind (writes : List Write) (reads : Table String (Option Nat))

/-- The answers to questions to a store. -/
abbrev StoreAsk.Answer : StoreAsk → Type
  | .now => Nat
  | .begin => Tx
  | .read _ => Except Fault (Option Record)
  | .commit _ => Except Fault Store
  | .commitBehind _ _ => Except Fault Unit

/-- Answer a question at the time `now`. -/
def StoreAsk.answer (now : Nat) (m : Transactions) : (q : StoreAsk) → q.Answer × Transactions
  | .now => (now, m)
  | .begin => m.begin now
  | .read key =>
    let (result, store) := m.store.read key
    (result, { m with store })
  | .commit tx =>
    let (result, m) := m.commit tx
    (result.map fun _ => m.store.store, m)
  | .commitBehind writes reads =>
    let (result, store) := m.store.commitBehind writes reads
    (result, { m with store })

/-- Questions of a program that works with a store. -/
inductive StoringAsk where
  /-- Something that is answered at once. -/
  | store (q : StoreAsk)
  /-- Let time pass. -/
  | sleep (span : Nat)

/-- Programs that work with a store. -/
def Storing : Signature where
  Ask := StoringAsk
  Answer
    | .store q => q.Answer
    | .sleep _ => Unit

namespace Storing

/-- Ask the store a question. -/
def ask (q : StoreAsk) : Program Storing q.Answer := Program.query (S := Storing) (.store q)

/-- Let time pass. -/
def sleep (span : Nat) : Program Storing Unit := Program.query (S := Storing) (.sleep span)

/-- Read a key in a transaction. -/
def get (tx : Tx) (key : String) : Program Storing (Except Fault (Option Bytes) × Tx) :=
  match tx.staged? key with
  | some staged => pure (.ok staged, tx)
  | none => do
    match ← ask (.read key) with
    | .error fault => pure (.error fault, tx)
    | .ok record => pure (.ok (record.map Record.value), tx.saw key record)

/-- Run work in a new transaction, commit it and run the hooks. The work also yields the state
that the hooks act on. -/
def transact {σ α : Type} (work : Tx → Program Storing (Except Fault α × Tx × σ))
    (hooks : List (Hook σ α)) : Program Storing (Except Fault (Committed α) × σ) := do
  let tx ← ask .begin
  let (result, tx, state) ← work tx
  match result with
  | .error fault => pure (.error fault, state)
  | .ok value =>
    match ← ask (.commit tx) with
    | .error fault => pure (.error fault, state)
    | .ok store =>
      let now ← ask .now
      let committed : CommittedTx := ⟨tx.id, tx.writes.size, tx.startedAt, now⟩
      let (failures, state) := Hook.run committed value store hooks state
      pure (.ok ⟨value, committed, failures⟩, state)

end Storing

/-- Run a program by itself from the time `now` on: nothing else happens while it sleeps. -/
def Program.runAlone {α : Type} (now : Nat) (m : Transactions) :
    Program Storing α → α × Nat × Transactions
  | .done value => (value, now, m)
  | .ask (.store q) next =>
    let (answer, m) := q.answer now m
    (next answer).runAlone now m
  | .ask (.sleep span) next => (next ()).runAlone (Nanos.tick (Nanos.wakeTime now span)) m

end Flotilla
