import Flotilla.Proofs.Isolation

/-!
# The end of a transaction

A transaction ends in one of three ways. Work that fails, and a commit that is refused, leave no
trace and run no hook. Once a commit is taken its writes can be read, and then the hooks run: each
of them once and in their order, on the state that the one before has left, whatever became of the
hooks before (`Hook.runFrom_eq`). The failures that are reported are theirs, with their places.
-/

namespace Flotilla

/-- A question that changes no record. -/
def StoreAsk.Reads : StoreAsk → Prop
  | .now | .begin | .read _ => True
  | .commit _ | .commitBehind _ _ => False

/-- A program that commits nothing, whatever it is answered. -/
def Program.Reads {α : Type} : Program Storing α → Prop
  | .done _ => True
  | .ask (.store q) next => q.Reads ∧ ∀ answer, Reads (next answer)
  | .ask (.sleep _) next => Reads (next ())

private theorem Program.Reads.bind {α β : Type} {p : Program Storing α} {f : α → Program Storing β}
    (hp : p.Reads) (hf : ∀ value, (f value).Reads) : (p >>= f).Reads := by
  change (p.bind f).Reads
  induction p with
  | done value => exact hf value
  | ask question next ih =>
    cases question with
    | store q => exact ⟨hp.1, fun answer => ih answer (hp.2 answer)⟩
    | sleep span => exact ih () hp

/-- Reading in a transaction commits nothing. -/
theorem Storing.reads_get (tx : Tx) (key : String) : (Storing.get tx key).Reads := by
  unfold Storing.get
  cases tx.staged? key with
  | some staged => trivial
  | none =>
    refine ⟨trivial, fun answer => ?_⟩
    cases answer <;> trivial

/-- Whether an action keeps to its transaction: it commits nothing, and opens no other one. -/
def TxAction.IsOwn : TxAction → Prop
  | .race .. | .nested .. => False
  | .get .. | .put .. | .delete _ | .isDirty | .id | .sleep _ | .fail _ => True

instance : DecidablePred TxAction.IsOwn
  | .race .. | .nested .. => .isFalse id
  | .get .. | .put .. | .delete _ | .isDirty | .id | .sleep _ | .fail _ => .isTrue trivial

/-- An operation of the work itself does nothing to the store but read it. -/
theorem TxAction.reads_run {action : TxAction} (h : action.IsOwn) (tx : Tx) :
    (action.run tx).Reads := by
  cases action with
  | get key ignore =>
    rw [run]
    refine (Storing.reads_get tx key).bind fun answer => ?_
    obtain ⟨result, tx⟩ := answer
    cases result <;> trivial
  | put | delete | isDirty | id | fail => rw [run]; trivial
  | sleep span => rw [run]; trivial
  | race | nested => exact h.elim

/-- A row of such actions commits nothing. -/
theorem TxAction.reads_runAll {actions : List TxAction} (h : ∀ action ∈ actions, action.IsOwn)
    (tx : Tx) (notes : List TxNote) : (TxAction.runAll tx notes actions).Reads := by
  induction actions generalizing tx notes with
  | nil => rw [runAll]; trivial
  | cons action actions ih =>
    rw [runAll]
    refine (reads_run (h action List.mem_cons_self) tx).bind fun answer => ?_
    obtain ⟨result, tx⟩ := answer
    cases result with
    | error fault => trivial
    | ok note => exact ih (fun a ha => h a (List.mem_cons_of_mem _ ha)) tx _

/-- Reading leaves the store as it is. -/
theorem StoreAsk.Reads.store_answer {q : StoreAsk} (h : q.Reads) (now : Nat) (m : Transactions) :
    (q.answer now m).2.store.store = m.store.store := by
  cases q with
  | now | begin => rfl
  | read key => exact UnreliableStore.store_read m.store key
  | commit | commitBehind => exact h.elim

/-- What commits nothing leaves the store as it is. -/
theorem Program.Reads.store_runAlone {α : Type} {p : Program Storing α} (h : p.Reads) (now : Nat)
    (m : Transactions) : (p.runAlone now m).2.2.store.store = m.store.store := by
  induction p generalizing now m with
  | done value => rfl
  | ask question next ih =>
    cases question with
    | store q => exact (ih _ (h.2 _) _ _).trans (h.1.store_answer now m)
    | sleep span => exact ih () h _ _

/-- The write of a staged key is a write to that key. -/
theorem Tx.key_toWrite (key : String) (staged : Option Bytes) : (toWrite key staged).key = key := by
  cases staged <;> rfl

/-- A key that occurs once in a row of staged changes is removed, or written once. -/
theorem Store.read_foldl_toWrite (s : Store) {changes : List (String × Option Bytes)}
    (hnodup : (changes.map Prod.fst).Nodup) {key : String} {staged : Option Bytes}
    (hkey : (key, staged) ∈ changes) :
    ((changes.map fun e => Tx.toWrite e.1 e.2).foldl apply s).read key =
      staged.map fun value => ⟨value, s.lastVersion key + 1⟩ := by
  induction changes generalizing s with
  | nil => cases hkey
  | cons e rest ih =>
    rw [List.map_cons, List.nodup_cons] at hnodup
    rw [List.map_cons, List.foldl_cons]
    rcases List.mem_cons.1 hkey with rfl | hrest
    · have hothers : ∀ w ∈ rest.map fun e => Tx.toWrite e.1 e.2, w.key ≠ key := by
        intro w hw hkeyOf
        obtain ⟨e, he, rfl⟩ := List.mem_map.1 hw
        rw [Tx.key_toWrite] at hkeyOf
        exact hnodup.1 (List.mem_map.2 ⟨e, he, hkeyOf⟩)
      rw [(foldl_apply_of_ne _ hothers).1]
      cases staged with
      | some value => rw [Tx.toWrite, read_apply_put, if_pos rfl, Option.map_some]
      | none => rw [Tx.toWrite, read_apply_delete, if_pos rfl, Option.map_none]
    · have hne : e.1 ≠ key := fun he =>
        hnodup.1 (he ▸ List.mem_map_of_mem (f := Prod.fst) hrest)
      rw [ih _ hnodup.2 hrest, lastVersion_apply_of_ne s (by rwa [Tx.key_toWrite])]

/-- What a transaction has staged for a key is what the store holds after its changes, under the
next version of the key. -/
theorem Tx.read_foldl_toWrites (tx : Tx) (s : Store) {key : String} {staged : Option Bytes}
    (h : tx.staged? key = some staged) : (tx.toWrites.foldl Store.apply s).read key =
      staged.map fun value => ⟨value, s.lastVersion key + 1⟩ :=
  s.read_foldl_toWrite tx.writes.nodup ((Table.get?_eq_some_iff _ _ _).1 h)

/-- After the writes of a transaction, each staged key holds what was staged. -/
theorem Tx.value_foldl_toWrites (tx : Tx) (s : Store) {key : String} {staged : Option Bytes}
    (h : tx.staged? key = some staged) :
    ((tx.toWrites.foldl Store.apply s).read key).map Record.value = staged := by
  rw [tx.read_foldl_toWrites s h, Option.map_map]
  exact Option.map_id_apply

namespace Hook

variable {σ α : Type}

/-- What is reported of a hook with this result and this number. -/
def failure? : Except String Unit × Nat → Option Fault
  | (.ok (), _) => none
  | (.error reason, index) => some (.hookFailure index reason)

/-- The failures among the results of hooks, the first of which has the number `index`. -/
def failures (index : Nat) (results : List (Except String Unit)) : List Fault :=
  (results.zipIdx index).filterMap failure?

/-- What becomes of hooks of which each is called once, one after the other: their results, and the
state that the last of them leaves. -/
def callAll (tx : CommittedTx) (value : α) (store : Store) (hooks : List (Hook σ α)) (state : σ) :
    List (Except String Unit) × σ :=
  (hooks.mapM fun hook => (hook tx value store : StateM σ (Except String Unit))).run state

/-- Calling a row of hooks calls the first, notes its failure, and calls the others. -/
theorem callAll_cons (tx : CommittedTx) (value : α) (store : Store) (hook : Hook σ α)
    (hooks : List (Hook σ α)) (state : σ) :
    callAll tx value store (hook :: hooks) state =
      let (result, state) := hook tx value store state
      let (results, state) := callAll tx value store hooks state
      (result :: results, state) := by
  rw [callAll, List.mapM_cons]
  rfl

/-- Every hook is called once and in its place, and what is reported are the failures. -/
theorem runFrom_eq (index : Nat) (tx : CommittedTx) (value : α) (store : Store)
    (hooks : List (Hook σ α)) (state : σ) : runFrom index tx value store hooks state =
      (failures index (callAll tx value store hooks state).1,
        (callAll tx value store hooks state).2) := by
  induction hooks generalizing index state with
  | nil => rfl
  | cons hook hooks ih =>
    rw [runFrom, callAll_cons]
    obtain ⟨result, next⟩ := hook tx value store state
    dsimp only
    rw [ih, failures, failures, List.zipIdx_cons]
    cases result with
    | ok => rfl
    | error reason => rfl

/-- Every hook has one answer. -/
theorem length_callAll (tx : CommittedTx) (value : α) (store : Store) (hooks : List (Hook σ α))
    (state : σ) : (callAll tx value store hooks state).1.length = hooks.length := by
  induction hooks generalizing state with
  | nil => rfl
  | cons hook hooks ih =>
    rw [callAll_cons]
    exact congrArg (· + 1) (ih (hook tx value store state).2)

end Hook

/-- Whether a fault says by itself that a commit was refused. -/
def Fault.isRefusal : Fault → Bool
  | .commitFailure _ | .commitConflict _ => true
  | _ => false

/-- A refusal stays as it is, and any other fault of a commit is a failure of the commit. -/
theorem Fault.ofCommit_eq (fault : Fault) :
    fault.ofCommit = if fault.isRefusal then fault else .commitFailure fault.message := by
  cases fault <;> rfl

namespace Transactions

variable {σ α : Type} {m : Transactions} {tx : Tx}

/-- A commit that is refused runs no hook. -/
theorem conclude_of_error {fault : Fault}
    (h : (m.store.commit tx.toWrites tx.reads).1 = .error fault) (now : Nat) (value : α)
    (hooks : List (Hook σ α)) (state : σ) : m.conclude tx now (.ok value) hooks state =
      (.error fault.ofCommit, { m with store := (m.store.commit tx.toWrites tx.reads).2 },
        state) := by
  unfold conclude commit
  generalize m.store.commit tx.toWrites tx.reads = r at h ⊢
  obtain ⟨verdict, store⟩ := r
  cases h
  rfl

/-- The hooks run on the store of a commit that is taken. -/
theorem conclude_of_ok (h : (m.store.commit tx.toWrites tx.reads).1 = .ok ()) (now : Nat)
    (value : α) (hooks : List (Hook σ α)) (state : σ) :
    let store := (m.store.commit tx.toWrites tx.reads).2
    let committed : CommittedTx := ⟨tx.id, tx.writes.size, tx.startedAt, now⟩
    let called := Hook.callAll committed value store.store hooks state
    m.conclude tx now (.ok value) hooks state =
      (.ok ⟨value, committed, Hook.failures 0 called.1⟩, { m with store }, called.2) := by
  unfold conclude commit
  generalize m.store.commit tx.toWrites tx.reads = r at h ⊢
  obtain ⟨verdict, store⟩ := r
  cases h
  dsimp only
  rw [Hook.run, Hook.runFrom_eq]

end Transactions

namespace Worked

variable {σ α : Type}

/-- The store behind, as the work has left it. -/
def store (w : Worked σ α) : Store := w.transactions.store.store

/-- What the store says to the commit. -/
def verdict (w : Worked σ α) : Except Fault Unit :=
  (w.transactions.store.commit w.tx.toWrites w.tx.reads).1

/-- The transaction as the hooks are told of it. -/
def committed (w : Worked σ α) : CommittedTx := ⟨w.tx.id, w.tx.writes.size, w.tx.startedAt, w.now⟩

/-- How a transaction ends whose work has come to this: the result that it returns, the state that
its hooks have been given, and the store behind. -/
structure Ends (w : Worked σ α) (hooks : List (Hook σ α)) (result : Except Fault (Committed α))
    (state : σ) (store : Store) : Prop where
  /-- Work that fails is all that happens. -/
  failed : ∀ fault, w.result = .error fault →
    result = .error fault ∧ state = w.state ∧ store = w.store
  /-- So is work whose commit is refused. -/
  refused : ∀ value fault, w.result = .ok value → w.verdict = .error fault →
    result = .error (if fault.isRefusal then fault else .commitFailure fault.message) ∧
      state = w.state ∧ store = w.store
  /-- When the commit is taken the store holds what was staged, and the hooks are called on it. -/
  taken : ∀ value, w.result = .ok value → w.verdict = .ok () →
    store = w.tx.toWrites.foldl Store.apply w.store ∧
      (∀ key staged, w.tx.staged? key = some staged →
        (store.read key).map Record.value = staged) ∧
      ∃ results, Hook.callAll w.committed value store hooks w.state = (results, state) ∧
        results.length = hooks.length ∧
        result = .ok ⟨value, w.committed, Hook.failures 0 results⟩

/-- Concluding a transaction ends it in one of these ways. -/
theorem ends_conclude (w : Worked σ α) (hooks : List (Hook σ α)) :
    let r := w.transactions.conclude w.tx w.now w.result hooks w.state
    w.Ends hooks r.1 r.2.2 r.2.1.store.store := by
  intro r
  refine ⟨?_, ?_, ?_⟩
  · intro fault hresult
    have hr : r = (.error fault, w.transactions, w.state) := by
      simp only [r, hresult, Transactions.conclude]
    rw [hr]
    exact ⟨rfl, rfl, rfl⟩
  · intro value fault hresult hverdict
    have hr := Transactions.conclude_of_error hverdict w.now value hooks w.state
    rw [← hresult] at hr
    rw [show r = _ from hr]
    exact ⟨congrArg Except.error fault.ofCommit_eq, rfl,
      UnreliableStore.store_commit_of_error hverdict⟩
  · intro value hresult hverdict
    have hstore := (Store.commit_eq_ok_iff.1 (UnreliableStore.commit_of_ok hverdict)).1
    have hr := Transactions.conclude_of_ok hverdict w.now value hooks w.state
    rw [← hresult] at hr
    rw [show r = _ from hr]
    refine ⟨hstore, ?_, _, rfl, Hook.length_callAll _ _ _ _ _, rfl⟩
    intro key staged hstaged
    dsimp only
    rw [hstore]
    exact w.tx.value_foldl_toWrites _ hstaged

end Worked

/-- A transaction from begin to end ends as its work and the verdict on its commit let it, and if
its work commits nothing by itself, the store is until then as it was before. -/
theorem Storing.transact_ends {σ α : Type}
    (work : Tx → Program Storing (Except Fault α × Tx × σ)) (hooks : List (Hook σ α)) (now : Nat)
    (m : Transactions) :
    let w := worked work now m
    let r := (transact work hooks).runAlone now m
    w.Ends hooks r.1.1 r.1.2 r.2.2.store.store ∧
      ((work (m.begin now).1).Reads → w.store = m.store.store) := by
  intro w r
  have hr := runAlone_transact work hooks now m
  refine ⟨?_, fun h => h.store_runAlone now (m.begin now).2⟩
  rw [show r = _ from hr]
  exact w.ends_conclude hooks

/-- Work that reads a key and changes it and another one. -/
def restock : List TxAction := [.get "k" false, .put "k" [2], .put "new" [3]]

/-- The work as a program; its hooks are to act on notes of their own. -/
def restocking (tx : Tx) :
    Program Storing (Except Fault Nat × Tx × List (String × Nat × Option Record)) := do
  let (result, tx, _) ← TxAction.runAll tx [] restock
  pure (result.map fun _ => restock.length, tx, [])

/-- A hook that notes its name, how many keys were written and what it finds under one of them. -/
def noting (name : String) (result : Except String Unit) :
    Hook (List (String × Nat × Option Record)) Nat :=
  fun tx _ store notes => (result, notes ++ [(name, tx.writes, store.read "k")])

/-- Hooks of which the first and the last fail. -/
def threeHooks : List (Hook (List (String × Nat × Option Record)) Nat) :=
  [noting "a" (.error "full"), noting "b" (.ok ()), noting "c" (.error "late")]

/-- Of three hooks, the first and the last fail, and both failures are reported with their
places. -/
theorem Storing.transact_ends_restocking :
    (restocking (Tx.oneRecord.begin 0).1).Reads ∧
      (worked restocking 0 Tx.oneRecord).store = Tx.oneRecord.store.store ∧
      ((transact restocking threeHooks).runAlone 0 Tx.oneRecord).1 =
        (.ok ⟨3, ⟨1, 2, 0, 0⟩, [.hookFailure 0 "full", .hookFailure 2 "late"]⟩,
          [("a", 2, some ⟨[2], 2⟩), ("b", 2, some ⟨[2], 2⟩), ("c", 2, some ⟨[2], 2⟩)]) := by
  obtain ⟨hends, hunchanged⟩ := transact_ends restocking threeHooks 0 Tx.oneRecord
  have hown : ∀ action ∈ restock, action.IsOwn := by decide
  have hreads : (restocking (Tx.oneRecord.begin 0).1).Reads :=
    (TxAction.reads_runAll hown _ []).bind fun _ => trivial
  obtain ⟨hstore, -, results, hcalled, -, hresult⟩ :=
    hends.taken 3 (by decide +kernel) (by decide +kernel)
  have hnotes : Hook.callAll (worked restocking 0 Tx.oneRecord).committed 3
      ((worked restocking 0 Tx.oneRecord).tx.toWrites.foldl Store.apply
        (worked restocking 0 Tx.oneRecord).store) threeHooks
        (worked restocking 0 Tx.oneRecord).state =
      ([.error "full", .ok (), .error "late"],
        [("a", 2, some ⟨[2], 2⟩), ("b", 2, some ⟨[2], 2⟩), ("c", 2, some ⟨[2], 2⟩)]) := by
    decide +kernel
  rw [hstore, hnotes] at hcalled
  obtain ⟨rfl, hstate⟩ := Prod.mk.inj hcalled
  refine ⟨hreads, hunchanged hreads, Prod.ext ?_ hstate.symm⟩
  rw [hresult]
  decide +kernel

end Flotilla
