import Flotilla.Transaction.Program

/-!
# Scripted transactions

The work of a transaction as data: a list of actions that are done in order, each of which leaves
a note. Hooks are data too: each leaves a note of its call and may then fail.
-/

namespace Flotilla

/-- A hook that notes its call and fails if it has been given reasons. -/
structure HookScript where
  /-- The name it is noted under. -/
  name : String
  /-- The reasons of its failure, the outermost first; none if it succeeds. -/
  reasons : List String
  deriving DecidableEq, Repr

/-- One thing that the work of a transaction does. -/
inductive TxAction where
  /-- Read a key. A read that fails ends the work, unless that is to be ignored. -/
  | get (key : String) (ignore : Bool)
  /-- Stage a write. -/
  | put (key : String) (value : Bytes)
  /-- Stage a removal. -/
  | delete (key : String)
  /-- Whether anything is staged. -/
  | isDirty
  /-- The number of the transaction. -/
  | id
  /-- A commit by somebody else. -/
  | race (writes : List Write) (reads : Table String (Option Nat))
  /-- Let time pass. -/
  | sleep (span : Nat)
  /-- Another transaction, from begin to end. -/
  | nested (work : List TxAction) (hooks : List HookScript)
  /-- End the work with a fault. -/
  | fail (fault : Fault)

/-- A call of a scripted hook. -/
structure HookCall where
  /-- Its name. -/
  name : String
  /-- The transaction. -/
  tx : Nat
  /-- How many keys the transaction wrote. -/
  writes : Nat
  /-- The value of the work. -/
  value : Nat
  deriving DecidableEq, Repr

/-- What an action left behind. -/
inductive TxNote where
  /-- What was read. -/
  | value (bytes : Option Bytes)
  /-- A read that failed. -/
  | fault (fault : Fault)
  /-- Something was done that has no result. -/
  | done
  /-- Whether anything was staged. -/
  | flag (dirty : Bool)
  /-- The number of the transaction. -/
  | id (n : Nat)
  /-- What became of a commit. -/
  | verdict (result : Except Fault Unit)
  /-- What became of a transaction, the notes of its work and the calls of its hooks. -/
  | report (result : Except Fault (Committed Nat)) (notes : List TxNote) (calls : List HookCall)

/-- What becomes of a scripted transaction. -/
structure TxReport where
  /-- Its outcome; the value of its work is the number of its actions. -/
  result : Except Fault (Committed Nat)
  /-- The notes of its work. -/
  notes : List TxNote
  /-- The calls of its hooks. -/
  calls : List HookCall

namespace HookScript

/-- The hook that a script describes; it acts on the notes and calls so far. -/
def toHook (h : HookScript) : Hook (List TxNote × List HookCall) Nat :=
  fun tx value _ state =>
    let state := (state.1, state.2 ++ [⟨h.name, tx.id, tx.writes, value⟩])
    if h.reasons.isEmpty then (.ok (), state) else (.error (": ".intercalate h.reasons), state)

end HookScript

mutual

/-- Do one action in a transaction: what it left behind, or the fault that ends the work. -/
def TxAction.run (tx : Tx) : TxAction → Program Storing (Except Fault TxNote × Tx)
  | .get key ignore => do
    match ← Storing.get tx key with
    | (.ok bytes, tx) => pure (.ok (.value bytes), tx)
    | (.error fault, tx) =>
      pure (if ignore then (.ok (.fault fault), tx) else (.error fault, tx))
  | .put key value => pure (.ok .done, tx.put key value)
  | .delete key => pure (.ok .done, tx.delete key)
  | .isDirty => pure (.ok (.flag tx.isDirty), tx)
  | .id => pure (.ok (.id tx.id), tx)
  | .race writes reads => do
    let result ← Storing.ask (.commitBehind writes reads)
    pure (.ok (.verdict result), tx)
  | .sleep span => do
    Storing.sleep span
    pure (.ok .done, tx)
  | .nested work hooks => do
    let (result, notes, calls) ← Storing.transact
      (fun inner => do
        let (result, inner, notes) ← TxAction.runAll inner [] work
        pure (result.map fun _ => work.length, inner, (notes, [])))
      (hooks.map HookScript.toHook)
    pure (.ok (.report result notes calls), tx)
  | .fail fault => pure (.error fault, tx)

/-- Do actions in order until one ends the work; `notes` are those left so far. -/
def TxAction.runAll (tx : Tx) (notes : List TxNote) :
    List TxAction → Program Storing (Except Fault Unit × Tx × List TxNote)
  | [] => pure (.ok (), tx, notes)
  | action :: actions => do
    match ← action.run tx with
    | (.error fault, tx) => pure (.error fault, tx, notes)
    | (.ok note, tx) => TxAction.runAll tx (notes ++ [note]) actions

end

/-- A scripted transaction from begin to end. -/
def TxAction.execute (work : List TxAction) (hooks : List HookScript) :
    Program Storing TxReport := do
  let (result, notes, calls) ← Storing.transact
    (fun tx => do
      let (result, tx, notes) ← TxAction.runAll tx [] work
      pure (result.map fun _ => work.length, tx, (notes, [])))
    (hooks.map HookScript.toHook)
  pure ⟨result, notes, calls⟩

end Flotilla
