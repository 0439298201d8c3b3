import Flotilla.Proofs.Store.Versions
import Flotilla.Transaction.Script

/-!
# What a transaction has read

The work of a transaction reads, writes and removes keys while others commit to the same store in
between. The transaction remembers the version that each key had at its first read, and its own
commit is taken only if all of these are current. A version stands for one value for good, so a
key that was found at its first read reads at the commit as every read of it did. An absent key
has no version: it may come and go again between two reads, and the commit is taken all the same.
-/

namespace Flotilla

/-- A program that goes on with another one runs it where it has ended itself. -/
theorem Program.runAlone_bind {α β : Type} (p : Program Storing α) (f : α → Program Storing β)
    (now : Nat) (m : Transactions) :
    (p >>= f).runAlone now m =
      (f (p.runAlone now m).1).runAlone (p.runAlone now m).2.1 (p.runAlone now m).2.2 := by
  change (p.bind f).runAlone now m = _
  induction p generalizing now m with
  | done value => rfl
  | ask question next ih =>
    cases question with
    | store q => exact ih (q.answer now m).1 now (q.answer now m).2
    | sleep span => exact ih () (Nanos.tick (Nanos.wakeTime now span)) m

@[simp] theorem Program.runAlone_pure {α : Type} (value : α) (now : Nat) (m : Transactions) :
    (pure value : Program Storing α).runAlone now m = (value, now, m) := rfl

@[simp] theorem Storing.runAlone_ask (q : StoreAsk) (now : Nat) (m : Transactions) :
    (Storing.ask q).runAlone now m = ((q.answer now m).1, now, (q.answer now m).2) := rfl

/-- Reading a key as a program is reading it at once. -/
theorem Storing.runAlone_get (tx : Tx) (key : String) (now : Nat) (m : Transactions) :
    (Storing.get tx key).runAlone now m =
      (((tx.get key m.store).1, (tx.get key m.store).2.1), now,
        { m with store := (tx.get key m.store).2.2 }) := by
  unfold Storing.get Tx.get
  cases tx.staged? key with
  | some staged => rfl
  | none =>
    have hanswer : (StoreAsk.read key).answer now m =
        ((m.store.read key).1, { m with store := (m.store.read key).2 }) := rfl
    dsimp only
    rw [Program.runAlone_bind, runAlone_ask, hanswer]
    cases m.store.read key with
    | mk result store => cases result <;> rfl

/-- What the work of a transaction has come to before anything is committed. -/
structure Worked (σ α : Type) where
  result : Except Fault α
  tx : Tx
  /-- The state that the hooks act on. -/
  state : σ
  now : Nat
  transactions : Transactions

/-- Run the work of a new transaction by itself. -/
def Storing.worked {σ α : Type} (work : Tx → Program Storing (Except Fault α × Tx × σ)) (now : Nat)
    (m : Transactions) : Worked σ α :=
  let r := (work (m.begin now).1).runAlone now (m.begin now).2
  ⟨r.1.1, r.1.2.1, r.1.2.2, r.2.1, r.2.2⟩

/-- A transaction from begin to end does its work and then concludes. -/
theorem Storing.runAlone_transact {σ α : Type}
    (work : Tx → Program Storing (Except Fault α × Tx × σ)) (hooks : List (Hook σ α)) (now : Nat)
    (m : Transactions) :
    let w := worked work now m
    let r := w.transactions.conclude w.tx w.now w.result hooks w.state
    (transact work hooks).runAlone now m = ((r.1, r.2.2), w.now, r.2.1) := by
  have hbegin : StoreAsk.begin.answer now m = m.begin now := rfl
  rw [transact, Program.runAlone_bind, runAlone_ask, hbegin]
  dsimp only
  rw [Program.runAlone_bind, worked]
  obtain ⟨⟨result, tx, state⟩, later, after⟩ := (work (m.begin now).1).runAlone now (m.begin now).2
  cases result with
  | error fault => rfl
  | ok value =>
    have hcommit : (StoreAsk.commit tx).answer later after =
        ((after.commit tx).1.map fun _ => (after.commit tx).2.store.store, (after.commit tx).2) :=
      rfl
    dsimp only
    rw [Program.runAlone_bind, runAlone_ask, hcommit, Transactions.conclude]
    cases after.commit tx with
    | mk verdict m => cases verdict <;> rfl

namespace Tx

/-- Something that happens while the work of a transaction is done. -/
inductive Move where
  /-- The work reads a key. -/
  | get (key : String)
  /-- The work stages a write. -/
  | put (key : String) (value : Bytes)
  /-- The work stages a removal. -/
  | delete (key : String)
  /-- Somebody else commits to the same store, or tries to. -/
  | foreign (writes : List Write) (reads : Table String (Option Nat))
  deriving DecidableEq, Repr

/-- The move as an action of a scripted transaction. -/
def Move.toAction : Move → TxAction
  | .get key => .get key true
  | .put key value => .put key value
  | .delete key => .delete key
  | .foreign writes reads => .race writes reads

/-- An open transaction at its work. -/
structure Session where
  /-- The transaction. -/
  tx : Tx
  /-- The store that it works on. -/
  transactions : Transactions
  /-- What reads of keys without a staged write have returned, the earliest first. -/
  answers : List (String × Option Bytes)
  /-- What each move has left behind. -/
  notes : List TxNote

namespace Session

/-- A transaction that has just been opened. -/
def begin (now : Nat) (m : Transactions) : Session := ⟨(m.begin now).1, (m.begin now).2, [], []⟩

/-- The store behind, as it is at the moment. -/
def store (s : Session) : Store := s.transactions.store.store

/-- The session after a read of a key that returned `result`. -/
def afterGet (s : Session) (key : String) (tx : Tx) (store : UnreliableStore) :
    Except Fault (Option Bytes) → Session
  | .error fault =>
    ⟨tx, { s.transactions with store }, s.answers, s.notes ++ [.fault fault]⟩
  | .ok bytes =>
    ⟨tx, { s.transactions with store },
      if (s.tx.staged? key).isSome then s.answers else s.answers ++ [(key, bytes)],
      s.notes ++ [.value bytes]⟩

/-- One move. -/
def step (s : Session) : Move → Session
  | .get key =>
    let r := s.tx.get key s.transactions.store
    s.afterGet key r.2.1 r.2.2 r.1
  | .put key value => { s with tx := s.tx.put key value, notes := s.notes ++ [.done] }
  | .delete key => { s with tx := s.tx.delete key, notes := s.notes ++ [.done] }
  | .foreign writes reads =>
    let r := s.transactions.store.commitBehind writes reads
    { s with
      transactions := { s.transactions with store := r.2 }
      notes := s.notes ++ [.verdict r.1] }

/-- A row of moves. -/
def run (s : Session) (moves : List Move) : Session := moves.foldl step s

/-- The script of a row of moves does what the moves do. -/
theorem runAlone_runAll (moves : List Move) (s : Session) (now : Nat) :
    (TxAction.runAll s.tx s.notes (moves.map Move.toAction)).runAlone now s.transactions =
      ((.ok (), (s.run moves).tx, (s.run moves).notes), now, (s.run moves).transactions) := by
  induction moves generalizing s with
  | nil => rfl
  | cons move moves ih =>
    rw [List.map_cons, TxAction.runAll, Program.runAlone_bind]
    have hstep := ih (s.step move)
    cases move with
    | get key =>
      simp only [Move.toAction, TxAction.run, Program.runAlone_bind, Storing.runAlone_get]
      simp only [step, run, List.foldl_cons] at hstep ⊢
      cases hr : (s.tx.get key s.transactions.store).1 with
      | ok bytes =>
        simp only [hr, afterGet] at hstep ⊢
        exact hstep
      | error fault =>
        simp only [hr, afterGet] at hstep ⊢
        exact hstep
    | put key value => exact hstep
    | delete key => exact hstep
    | foreign writes reads => exact hstep

/-- A transaction on a script commits as the session has left it, and then runs its hooks. -/
theorem runAlone_execute (moves : List Move) (hooks : List HookScript) (now : Nat)
    (m : Transactions) :
    let s := (begin now m).run moves
    let r := s.transactions.conclude s.tx now (.ok moves.length)
      (hooks.map HookScript.toHook) (s.notes, [])
    (TxAction.execute (moves.map Move.toAction) hooks).runAlone now m =
      (⟨r.1, r.2.2.1, r.2.2.2⟩, now, r.2.1) := by
  intro s r
  have hall : (TxAction.runAll (m.begin now).1 [] (moves.map Move.toAction)).runAlone now
      (m.begin now).2 = ((.ok (), s.tx, s.notes), now, s.transactions) :=
    runAlone_runAll moves (begin now m) now
  rw [TxAction.execute, Program.runAlone_bind, Storing.runAlone_transact, Storing.worked,
    Program.runAlone_bind, hall]
  simp only [Program.runAlone_pure, Except.map, List.length_map]
  rfl

end Session

/-- What can come of a read in a transaction. -/
theorem get_cases (tx : Tx) (key : String) (store : UnreliableStore) :
    (∃ value, tx.staged? key = some value ∧ tx.get key store = (.ok value, tx, store)) ∨
    (∃ fault after, tx.staged? key = none ∧ after.store = store.store ∧
      tx.get key store = (.error fault, tx, after)) ∨
    ∃ after, tx.staged? key = none ∧ after.store = store.store ∧
      tx.get key store = (.ok ((store.store.read key).map Record.value),
        tx.saw key (store.store.read key), after) := by
  unfold Tx.get
  cases tx.staged? key with
  | some value => exact Or.inl ⟨value, rfl, rfl⟩
  | none =>
    have hstore := UnreliableStore.store_read store key
    have hrecord := @UnreliableStore.read_eq_of_ok store key
    generalize store.read key = r at hstore hrecord ⊢
    obtain ⟨result, after⟩ := r
    cases result with
    | error fault => exact Or.inr (Or.inl ⟨fault, after, rfl, hstore, rfl⟩)
    | ok record =>
      have he := hrecord rfl
      subst he
      exact Or.inr (Or.inr ⟨after, rfl, hstore, rfl⟩)

/-- The version that is remembered for a key: the one it had before, or else the one seen now. -/
theorem get?_reads_saw (tx : Tx) (key : String) (record : Option Record) (x : String) :
    (tx.saw key record).reads.get? x =
      (tx.reads.get? x).or (if key = x then some (record.map Record.version) else none) := by
  unfold saw
  split
  · next hc =>
    by_cases hx : key = x
    · subst hx
      obtain ⟨v, hv⟩ := Option.isSome_iff_exists.1 hc
      rw [hv, Option.some_or]
    · rw [if_neg hx, Option.or_none]
  · next hc =>
    rw [Table.get?_set]
    by_cases hx : key = x
    · subst hx
      have hn : tx.reads.get? key = none := by simpa [Table.contains] using hc
      rw [if_pos rfl, if_pos rfl, hn, Option.none_or]
    · rw [if_neg hx, if_neg hx, Option.or_none]

/-- The answers to reads fit the versions that are remembered. -/
structure Session.Sound (s : Session) : Prop where
  /-- A version is remembered for the keys that have an answer, and it is absent exactly when the
  first answer is. -/
  first : ∀ key, (s.tx.reads.get? key).map Option.isSome =
    (Table.lookup key s.answers).map Option.isSome
  /-- As long as a key has the version of its first read, it reads as every answer for it. -/
  current : ∀ key version, s.tx.reads.get? key = some (some version) →
    version ≤ s.store.lastVersion key ∧
      ∀ record, s.store.read key = some record → record.version = version →
        ∀ answer, (key, answer) ∈ s.answers → answer = some record.value

namespace Session

/-- A transaction that has just begun is sound. -/
theorem sound_begin (now : Nat) (m : Transactions) : (begin now m).Sound where
  first _ := rfl
  current _ _ h := nomatch h

/-- A sound session stays sound when the keys of its store evolve. -/
theorem Sound.evolve {s t : Session} (h : s.Sound) (hreads : t.tx.reads = s.tx.reads)
    (hanswers : t.answers = s.answers) (hstore : ∀ key, s.store.Evolved key t.store) :
    t.Sound where
  first key := by
    rw [hreads, hanswers]
    exact h.first key
  current key version hv := by
    rw [hreads] at hv
    obtain ⟨hle, hsame⟩ := h.current key version hv
    refine ⟨Nat.le_trans hle (hstore key).lastVersion_le, ?_⟩
    intro record hr hversion
    rw [hanswers]
    rcases (hstore key).read_eq_or_lt with heq | hlt
    · exact hsame record (heq ▸ hr) hversion
    · have := hlt record hr
      omega

/-- The keys without a remembered version are those without an answer. -/
theorem Sound.unread_iff {s : Session} (h : s.Sound) (key : String) :
    s.tx.reads.get? key = none ↔ ∀ answer, (key, answer) ∉ s.answers := by
  have hmap : (s.tx.reads.get? key).map Option.isSome = none ↔
      (Table.lookup key s.answers).map Option.isSome = none := by rw [h.first]
  rw [Option.map_eq_none_iff, Option.map_eq_none_iff, Table.lookup_eq_none_iff] at hmap
  rw [hmap]
  exact ⟨fun hn a ha => hn (List.mem_map_of_mem (f := Prod.fst) ha), fun hn hm => by
    obtain ⟨e, he, rfl⟩ := List.mem_map.1 hm
    exact hn e.2 he⟩

/-- An answer from the store keeps a session sound. -/
theorem Sound.answer {s t : Session} (h : s.Sound) (key : String)
    (htx : t.tx = s.tx.saw key (s.store.read key)) (hstore : t.store = s.store)
    (hanswers : t.answers = s.answers ++ [(key, (s.store.read key).map Record.value)]) :
    t.Sound := by
  constructor
  · intro x
    have hx := h.first x
    rw [htx, get?_reads_saw, hanswers, Table.lookup_append]
    cases hr : s.tx.reads.get? x <;> cases ha : Table.lookup x s.answers <;>
      rw [hr, ha] at hx
    · rw [Option.none_or, Option.none_or, Table.lookup]
      split
      · cases s.store.read key <;> rfl
      · rfl
    · cases hx
    · cases hx
    · exact hx
  · intro x version hv
    rw [htx, get?_reads_saw] at hv
    rw [hstore, hanswers]
    cases hr : s.tx.reads.get? x with
    | some first =>
      rw [hr, Option.some_or, Option.some.injEq] at hv
      subst hv
      obtain ⟨hle, hsame⟩ := h.current x version hr
      refine ⟨hle, ?_⟩
      intro record hrec hver a ha
      rcases List.mem_append.1 ha with ha | ha
      · exact hsame record hrec hver a ha
      · rw [List.mem_singleton, Prod.mk.injEq] at ha
        obtain ⟨rfl, rfl⟩ := ha
        rw [hrec, Option.map_some]
    | none =>
      rw [hr, Option.none_or] at hv
      split at hv
      · next hx =>
        subst hx
        obtain ⟨record, hrec, rfl⟩ := Option.map_eq_some_iff.1 (Option.some.inj hv)
        refine ⟨Nat.le_of_eq (Store.lastVersion_of_read hrec).symm, ?_⟩
        intro record' hrec' _ a ha
        rcases List.mem_append.1 ha with ha | ha
        · exact absurd ha ((h.unread_iff key).1 hr a)
        · rw [List.mem_singleton, Prod.mk.injEq, hrec'] at ha
          exact ha.2
      · cases hv

/-- Every move keeps a session sound. -/
theorem Sound.step {s : Session} (h : s.Sound) (move : Move) : (s.step move).Sound := by
  cases move with
  | get key =>
    rcases get_cases s.tx key s.transactions.store with
      ⟨value, hstaged, hget⟩ | ⟨fault, after, hstaged, hafter, hget⟩ |
      ⟨after, hstaged, hafter, hget⟩
    · refine h.evolve ?_ ?_ fun x => ?_
      · simp only [Session.step, hget, afterGet]
      · simp only [Session.step, hget, afterGet, hstaged, Option.isSome_some, if_true]
      · simp only [Session.step, hget, afterGet, Session.store]
        exact .refl x _
    · refine h.evolve ?_ ?_ fun x => ?_
      · simp only [Session.step, hget, afterGet]
      · simp only [Session.step, hget, afterGet]
      · simp only [Session.step, hget, afterGet, Session.store, hafter]
        exact .refl x _
    · refine h.answer key ?_ ?_ ?_
      · simp only [Session.step, hget, afterGet, Session.store]
      · simp only [Session.step, hget, afterGet, Session.store, hafter]
      · simp only [Session.step, hget, afterGet, hstaged, Option.isSome_none, Bool.false_eq_true,
          if_false, Session.store]
  | put key value => exact h.evolve rfl rfl fun x => .refl x _
  | delete key => exact h.evolve rfl rfl fun x => .refl x _
  | foreign writes reads =>
    exact h.evolve rfl rfl fun x =>
      UnreliableStore.evolved_commitBehind s.transactions.store writes reads x

/-- So does a row of moves. -/
theorem Sound.run {s : Session} (h : s.Sound) (moves : List Move) : (s.run moves).Sound := by
  induction moves generalizing s with
  | nil => exact h
  | cons move moves ih => exact ih (h.step move)

/-- When every version that is remembered is current, a key reads as an answer for it unless the
key was absent at its first read and the answer is a value. -/
theorem Sound.answer_eq_read_iff {s : Session} (h : s.Sound)
    (hcurrent : ∀ key version, s.tx.reads.get? key = some version → s.store.version? key = version)
    {key : String} {answer : Option Bytes} (ha : (key, answer) ∈ s.answers) :
    answer = (s.store.read key).map Record.value ↔
      (Table.lookup key s.answers = some none → answer = none) := by
  have hfirst := h.first key
  cases hr : s.tx.reads.get? key with
  | none => exact absurd ha ((h.unread_iff key).1 hr answer)
  | some version =>
    have hversion := hcurrent key version hr
    rw [hr] at hfirst
    cases version with
    | none =>
      have habsent : s.store.read key = none := Option.map_eq_none_iff.1 hversion
      have hlookup : Table.lookup key s.answers = some none := by
        obtain ⟨a, hl, hn⟩ := Option.map_eq_some_iff.1 hfirst.symm
        rw [hl, Option.some.injEq]
        simpa using hn
      rw [habsent, hlookup]
      simp only [Option.map_none, forall_const]
    | some version =>
      obtain ⟨record, hrec, hver⟩ := Option.map_eq_some_iff.1 hversion
      have hvalue := (h.current key version hr).2 record hrec hver answer ha
      have hlookup : Table.lookup key s.answers ≠ some none := by
        intro hn
        rw [hn] at hfirst
        cases hfirst
      simp only [hvalue, hrec, Option.map_some, hlookup, false_implies]

end Session

/-- A transaction that commits is taken by the store behind. -/
theorem commit_of_conclude {σ α : Type} {m : Transactions} {tx : Tx} {now : Nat} {value : α}
    {hooks : List (Hook σ α)} {state : σ} {c : Committed α}
    (h : (m.conclude tx now (.ok value) hooks state).1 = .ok c) :
    m.store.store.commit tx.toWrites tx.reads =
      .ok (m.conclude tx now (.ok value) hooks state).2.1.store.store := by
  have hcommit := @UnreliableStore.commit_of_ok m.store tx.toWrites tx.reads
  unfold Transactions.conclude Transactions.commit at h ⊢
  generalize m.store.commit tx.toWrites tx.reads = r at h hcommit ⊢
  obtain ⟨result, store⟩ := r
  cases result with
  | error fault => cases h
  | ok => exact hcommit rfl

/-- A transaction whose commit is taken changes the store by its writes, and each read that it did
of a key without a staged write returned what the key still reads as just before these writes,
unless the key was absent when it was first read and this read found it. -/
theorem answers_current_iff (moves : List Move) (hooks : List HookScript) (now : Nat)
    (m : Transactions) (c : Committed Nat)
    (accepted :
      ((TxAction.execute (moves.map Move.toAction) hooks).runAlone now m).1.result = .ok c) :
    let s := (Session.begin now m).run moves
    ((TxAction.execute (moves.map Move.toAction) hooks).runAlone now m).2.2.store.store =
        s.tx.toWrites.foldl Store.apply s.store ∧
      ∀ key answer, (key, answer) ∈ s.answers →
        (answer = (s.store.read key).map Record.value ↔
          (Table.lookup key s.answers = some none → answer = none)) := by
  intro s
  have hrun := Session.runAlone_execute moves hooks now m
  rw [hrun] at accepted ⊢
  have hcommit := commit_of_conclude accepted
  obtain ⟨hstore, hcurrent⟩ := Store.commit_eq_ok_iff.1 hcommit
  refine ⟨hstore, ?_⟩
  intro key answer ha
  exact ((Session.sound_begin now m).run moves).answer_eq_read_iff hcurrent ha

/-- A store with one record, under the key `k`. -/
def oneRecord : Transactions :=
  .new ⟨Store.empty.apply (.put "k" [1]), [], 0⟩

/-- A row of moves in which somebody else writes another key between two reads. -/
def undisturbed : List Move :=
  [.get "k", .foreign [.put "other" [2]] ∅, .get "k", .get "none", .put "k" [3]]

/-- Without a commit in between the transaction commits, and its answers are current. -/
theorem answers_current_iff_undisturbed :
    ((TxAction.execute (undisturbed.map Move.toAction) []).runAlone 0 oneRecord).1.result =
        .ok ⟨5, ⟨1, 1, 0, 0⟩, []⟩ ∧
      (some [1] = (((Session.begin 0 oneRecord).run undisturbed).store.read "k").map Record.value ↔
        (Table.lookup "k" ((Session.begin 0 oneRecord).run undisturbed).answers = some none →
          some ([1] : Bytes) = none)) :=
  have accepted : ((TxAction.execute (undisturbed.map Move.toAction) []).runAlone 0
      oneRecord).1.result = .ok ⟨5, ⟨1, 1, 0, 0⟩, []⟩ := by decide +kernel
  ⟨accepted, (answers_current_iff undisturbed [] 0 oneRecord _ accepted).2 "k" (some [1])
    (by decide +kernel)⟩

/-- A row of moves in which an absent key comes and goes again between its first read and the
commit, and is read once more while it is there. -/
def fleeting : List Move :=
  [.get "k", .foreign [.put "k" [1]] ∅, .get "k", .foreign [.delete "k"] ∅, .put "copy" [1]]

/-- The commit is taken although one read returned a value and the key is absent. -/
theorem fleeting_accepted :
    ((TxAction.execute (fleeting.map Move.toAction) []).runAlone 0 (.new (.new []))).1.result =
        .ok ⟨5, ⟨1, 1, 0, 0⟩, []⟩ ∧
      ("k", some [1]) ∈ ((Session.begin 0 (.new (.new []))).run fleeting).answers ∧
      ((Session.begin 0 (.new (.new []))).run fleeting).store.read "k" = none := by
  decide +kernel

end Tx

end Flotilla
