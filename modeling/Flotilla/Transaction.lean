import Flotilla.Store.Outage

/-!
# Transactions

A transaction stages its writes and remembers the version that each key had when it was first
read from the store. It reads its own staged writes. When its work is done the writes are
committed together; then, and only then, hooks run in order, each exactly once. A hook that fails
is reported, and the commit stands.
-/

namespace Flotilla

/-- An open transaction. -/
structure Tx where
  /-- Its number. -/
  id : Nat
  /-- The staged writes in the order of their keys; nothing stands for a delete. -/
  writes : Table String (Option Bytes)
  /-- The version of each key at its first read; nothing when it was absent. -/
  reads : Table String (Option Nat)
  /-- When it was opened. -/
  startedAt : Nat
  deriving DecidableEq, Repr

namespace Tx

/-- A transaction that has done nothing. -/
def new (id now : Nat) : Tx := ⟨id, ∅, ∅, now⟩

/-- What the transaction itself has staged for a key, if it has. -/
def staged? (tx : Tx) (key : String) : Option (Option Bytes) := tx.writes.get? key

/-- Stage a write. -/
def put (tx : Tx) (key : String) (value : Bytes) : Tx :=
  { tx with writes := tx.writes.set key (some value) }

/-- Stage the removal of a key. -/
def delete (tx : Tx) (key : String) : Tx := { tx with writes := tx.writes.set key none }

/-- Remember what the store held under a key; only the first read of a key counts. -/
def saw (tx : Tx) (key : String) (record : Option Record) : Tx :=
  if tx.reads.contains key then tx
  else { tx with reads := tx.reads.set key (record.map Record.version) }

/-- Whether anything is staged. -/
def isDirty (tx : Tx) : Bool := !tx.writes.isEmpty

/-- A staged change as a write. -/
def toWrite (key : String) : Option Bytes → Write
  | some value => .put key value
  | none => .delete key

/-- The staged changes as writes. -/
def toWrites (tx : Tx) : List Write := tx.writes.entries.map fun e => toWrite e.1 e.2

/-- Read a key: the transaction's own staged write if there is one, else the store. -/
def get (tx : Tx) (key : String) (store : UnreliableStore) :
    Except Fault (Option Bytes) × Tx × UnreliableStore :=
  match tx.staged? key with
  | some staged => (.ok staged, tx, store)
  | none =>
    match store.read key with
    | (.error fault, store) => (.error fault, tx, store)
    | (.ok record, store) => (.ok (record.map Record.value), tx.saw key record, store)

end Tx

/-- What is known of a transaction once it has committed. -/
structure CommittedTx where
  /-- Its number. -/
  id : Nat
  /-- How many keys it wrote. -/
  writes : Nat
  /-- When it was opened. -/
  startedAt : Nat
  /-- When it was committed. -/
  committedAt : Nat
  deriving DecidableEq, Repr

/-- A hook looks at the committed transaction, at the value of its work and at the store, acts on
a state of its own, and may fail with a reason. -/
abbrev Hook (σ : Type) (α : Type) := CommittedTx → α → Store → σ → Except String Unit × σ

/-- The outcome of a transaction that has committed. -/
structure Committed (α : Type) where
  /-- The value of its work. -/
  value : α
  /-- The transaction. -/
  tx : CommittedTx
  /-- The hooks that failed, in order. -/
  hookFailures : List Fault
  deriving DecidableEq, Repr

/-- Whether no hook failed. -/
def Committed.hooksSucceeded {α : Type} (c : Committed α) : Bool := c.hookFailures.isEmpty

/-- Run hooks in order, the first of them with number `index`; returns the failures. -/
def Hook.runFrom {σ α : Type} (index : Nat) (tx : CommittedTx) (value : α) (store : Store) :
    List (Hook σ α) → σ → List Fault × σ
  | [], state => ([], state)
  | hook :: hooks, state =>
    let (result, state) := hook tx value store state
    let (failures, state) := runFrom (index + 1) tx value store hooks state
    match result with
    | .ok () => (failures, state)
    | .error reason => (.hookFailure index reason :: failures, state)

/-- Run all hooks in order; returns the failures. -/
def Hook.run {σ α : Type} (tx : CommittedTx) (value : α) (store : Store)
    (hooks : List (Hook σ α)) (state : σ) : List Fault × σ :=
  Hook.runFrom 0 tx value store hooks state

/-- The fault of a commit as a transaction reports it: a refusal as it is, anything else as a
failure with the text of the fault. -/
def Fault.ofCommit : Fault → Fault
  | .commitFailure reason => .commitFailure reason
  | .commitConflict key => .commitConflict key
  | fault => .commitFailure fault.message

/-- A store and the number of transactions opened on it. -/
structure Transactions where
  /-- The store. -/
  store : UnreliableStore
  /-- How many transactions have been opened. -/
  opened : Nat
  deriving DecidableEq, Repr

namespace Transactions

/-- Transactions on a store. -/
def new (store : UnreliableStore) : Transactions := ⟨store, 0⟩

/-- Open a transaction. -/
def begin (m : Transactions) (now : Nat) : Tx × Transactions :=
  (.new (m.opened + 1) now, { m with opened := m.opened + 1 })

/-- Commit the staged writes of a transaction. -/
def commit (m : Transactions) (tx : Tx) : Except Fault Unit × Transactions :=
  match m.store.commit tx.toWrites tx.reads with
  | (.ok (), store) => (.ok (), { m with store })
  | (.error fault, store) => (.error fault.ofCommit, { m with store })

/-- End a transaction whose work has the given result: a failure ends it without a trace, a value
is committed and the hooks run on the state `state`. -/
def conclude {σ α : Type} (m : Transactions) (tx : Tx) (now : Nat) (result : Except Fault α)
    (hooks : List (Hook σ α)) (state : σ) : Except Fault (Committed α) × Transactions × σ :=
  match result with
  | .error fault => (.error fault, m, state)
  | .ok value =>
    match m.commit tx with
    | (.error fault, m) => (.error fault, m, state)
    | (.ok (), m) =>
      let committed : CommittedTx := ⟨tx.id, tx.writes.size, tx.startedAt, now⟩
      let (failures, state) := Hook.run committed value m.store.store hooks state
      (.ok ⟨value, committed, failures⟩, m, state)

end Transactions

end Flotilla
