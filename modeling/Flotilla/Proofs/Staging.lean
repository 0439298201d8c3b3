import Flotilla.Proofs.Histories
import Flotilla.Proofs.Hooks
import Flotilla.Proofs.Store.Taking
import Mathlib.Data.Finset.Card
import Mathlib.Data.List.Induction

/-!
# Staged changes

What the work of a transaction reads, writes and removes can also be done straight on the store
(`Tx.direct`). While nobody else commits, the two are the same to look at: a staged change stands
for one that has been made (`Tx.Mirrors`), so every read is answered alike, the commit is taken, and
every key then has the value it would have. Only versions count differently, because the commit
makes one change for each key, the last one (`Tx.staged_as_direct`).
-/

namespace Flotilla

/-- Over a store without outages a key is read as it is. -/
theorem UnreliableStore.read_of_outages_eq_nil {s : UnreliableStore} (h : s.outages = [])
    (key : String) : s.read key = (.ok (s.store.read key), s) := by
  obtain ⟨store, outages, commits⟩ := s
  cases h
  rfl

/-- Scripted hooks leave the notes of the work alone. -/
theorem HookScript.notes_callAll (tx : CommittedTx) (value : Nat) (store : Store)
    (hooks : List HookScript) (state : List TxNote × List HookCall) :
    (Hook.callAll tx value store (hooks.map toHook) state).2.1 = state.1 := by
  induction hooks generalizing state with
  | nil => rfl
  | cons hook hooks ih =>
    rw [List.map_cons, Hook.callAll_cons]
    dsimp only
    rw [ih, toHook]
    split <;> rfl

namespace Tx

/-- Something that the work of a transaction does by itself. -/
inductive Deed where
  /-- Read a key. -/
  | get (key : String)
  /-- Write a key. -/
  | put (key : String) (value : Bytes)
  /-- Remove a key. -/
  | delete (key : String)
  deriving DecidableEq, Repr

namespace Deed

/-- The deed as a move of a session. -/
def toMove : Deed → Move
  | .get key => .get key
  | .put key value => .put key value
  | .delete key => .delete key

/-- What the deed makes of a key, if it changes it. -/
def changeOf? (key : String) : Deed → Option (Option Bytes)
  | .get _ => none
  | .put k value => if k = key then some (some value) else none
  | .delete k => if k = key then some none else none

/-- The key that the deed changes. -/
def touched? : Deed → Option String
  | .get _ => none
  | .put key _ | .delete key => some key

private theorem isSome_changeOf?_iff {key : String} {deed : Deed} :
    (deed.changeOf? key).isSome = true ↔ deed.touched? = some key := by
  cases deed with
  | get k => exact ⟨nofun, nofun⟩
  | put k value => rw [changeOf?, touched?, Option.some.injEq]; split <;> simp [*]
  | delete k => rw [changeOf?, touched?, Option.some.injEq]; split <;> simp [*]

end Deed

/-- What the last change of a key makes of it, if there is one. -/
def lastChange? (key : String) (deeds : List Deed) : Option (Option Bytes) :=
  (deeds.filterMap (Deed.changeOf? key)).getLast?

/-- The last change of a key is that of the last deed, if it changes the key. -/
theorem lastChange?_concat (key : String) (deeds : List Deed) (deed : Deed) :
    lastChange? key (deeds ++ [deed]) = (deed.changeOf? key).or (lastChange? key deeds) := by
  cases h : deed.changeOf? key with
  | none => rw [lastChange?, filterMap_concat_of_none h, Option.none_or, lastChange?]
  | some change =>
    rw [lastChange?, filterMap_concat_of_some h, List.getLast?_concat, Option.some_or]

private theorem isSome_lastChange?_iff {key : String} {deeds : List Deed} :
    (lastChange? key deeds).isSome = true ↔ key ∈ deeds.filterMap Deed.touched? := by
  induction deeds using List.reverseRecOn with
  | nil => exact ⟨nofun, nofun⟩
  | append_singleton deeds deed ih =>
    rw [lastChange?_concat, Option.isSome_or, Bool.or_eq_true, ih, Deed.isSome_changeOf?_iff,
      List.filterMap_append, List.mem_append, or_comm]
    refine or_congr_right ?_
    simp

/-- Deeds that are done straight on a store. -/
structure Direct where
  /-- What they have left behind. -/
  notes : List TxNote
  store : Store

/-- Do a deed straight on the store. -/
def Direct.step (d : Direct) : Deed → Direct
  | .get key => { d with notes := d.notes ++ [.value ((d.store.read key).map Record.value)] }
  | .put key value => ⟨d.notes ++ [.done], d.store.apply (.put key value)⟩
  | .delete key => ⟨d.notes ++ [.done], d.store.apply (.delete key)⟩

/-- Do a row of deeds straight on a store. -/
def direct (base : Store) (deeds : List Deed) : Direct := deeds.foldl Direct.step ⟨[], base⟩

/-- A session over a store that nobody else changes, beside the same deeds done straight on it. -/
structure Mirrors (base : Store) (deeds : List Deed) (s : Session) (d : Direct) : Prop where
  store : s.store = base
  outages : s.transactions.store.outages = []
  /-- What has been read is still current. -/
  reads : ∀ key version, s.tx.reads.get? key = some version → base.version? key = version
  /-- What is staged for a key is its last change. -/
  staged : ∀ key, s.tx.staged? key = lastChange? key deeds
  /-- The last change shows in the store where it was done straight. -/
  shown : ∀ key, (d.store.read key).map Record.value =
    (lastChange? key deeds).getD ((base.read key).map Record.value)
  notes : s.notes = d.notes

section Mirrors

variable {base : Store} {deeds : List Deed} {s : Session} {d : Direct}

/-- At first nothing is staged, and nothing is done. -/
theorem mirrors_begin (base : Store) (commits opened now : Nat) :
    Mirrors base [] (.begin now ⟨⟨base, [], commits⟩, opened⟩) ⟨[], base⟩ where
  store := rfl
  outages := rfl
  reads := nofun
  staged _ := rfl
  shown _ := rfl
  notes := rfl

/-- The value of the last change of a key, or else of the store below, is what the key has where
changes are made straight. -/
theorem Mirrors.answer (h : Mirrors base deeds s d) (key : String) {tx : Tx}
    (hreads : ∀ x version, tx.reads.get? x = some version → base.version? x = version)
    (hstaged : ∀ x, tx.staged? x = s.tx.staged? x) :
    Mirrors base (deeds ++ [.get key])
      (s.afterGet key tx s.transactions.store
        (.ok ((lastChange? key deeds).getD ((base.read key).map Record.value))))
      (d.step (.get key)) := by
  have hlast (x : String) : lastChange? x (deeds ++ [.get key]) = lastChange? x deeds :=
    (lastChange?_concat x deeds (.get key)).trans Option.none_or
  rw [Direct.step, h.shown]
  refine ⟨h.store, h.outages, hreads, fun x => ?_, fun x => ?_, ?_⟩
  · rw [hlast]
    exact (hstaged x).trans (h.staged x)
  · rw [hlast]
    exact h.shown x
  · exact congrArg (· ++ [_]) h.notes

private theorem staged?_saw (tx : Tx) (key : String) (record : Option Record) (x : String) :
    (tx.saw key record).staged? x = tx.staged? x := by
  unfold saw
  split <;> rfl

/-- What a read adds to what has been read is current. -/
theorem Mirrors.reads_saw (h : Mirrors base deeds s d) {key x : String} {version : Option Nat}
    (hversion : (s.tx.saw key (base.read key)).reads.get? x = some version) :
    base.version? x = version := by
  rw [get?_reads_saw] at hversion
  rcases Option.or_eq_some_iff.1 hversion with hbefore | ⟨-, hnow⟩
  · exact h.reads x version hbefore
  · split at hnow
    · next hx =>
      rw [← hx]
      exact Option.some.inj hnow
    · cases hnow

/-- A read is answered alike: by the last change if there is one, else by the store below. -/
theorem Mirrors.get (h : Mirrors base deeds s d) (key : String) :
    Mirrors base (deeds ++ [.get key]) (s.step (.get key)) (d.step (.get key)) := by
  cases hstaged : s.tx.staged? key with
  | some value =>
    have hget : s.tx.get key s.transactions.store = (.ok value, s.tx, s.transactions.store) := by
      rw [Tx.get, hstaged]
    have hanswer := h.answer key h.reads fun _ => rfl
    rw [← h.staged, hstaged] at hanswer
    rw [Session.step, hget]
    exact hanswer
  | none =>
    have hget : s.tx.get key s.transactions.store = (.ok ((base.read key).map Record.value),
        s.tx.saw key (base.read key), s.transactions.store) := by
      rw [Tx.get, hstaged, UnreliableStore.read_of_outages_eq_nil h.outages, ← h.store]
      rfl
    have hanswer := h.answer key (fun _ _ => h.reads_saw) (staged?_saw s.tx key (base.read key))
    rw [← h.staged, hstaged] at hanswer
    rw [Session.step, hget]
    exact hanswer

/-- The write of a staged key changes the value of that key alone. -/
theorem value_apply_toWrite (t : Store) (key : String) (staged : Option Bytes) (x : String) :
    ((t.apply (toWrite key staged)).read x).map Record.value =
      if key = x then staged else (t.read x).map Record.value := by
  cases staged with
  | some value =>
    rw [toWrite, Store.read_apply_put]
    split <;> rfl
  | none =>
    rw [toWrite, Store.read_apply_delete]
    split <;> rfl

/-- A change is staged where it would be made. -/
theorem Mirrors.change (h : Mirrors base deeds s d) {deed : Deed} (key : String)
    (staged : Option Bytes)
    (hdeed : ∀ x, deed.changeOf? x = if key = x then some staged else none) :
    Mirrors base (deeds ++ [deed])
      { s with
        tx := { s.tx with writes := s.tx.writes.set key staged }
        notes := s.notes ++ [.done] }
      ⟨d.notes ++ [.done], d.store.apply (toWrite key staged)⟩ := by
  have hlast (x : String) : lastChange? x (deeds ++ [deed]) =
      if key = x then some staged else lastChange? x deeds := by
    rw [lastChange?_concat, hdeed]
    split
    · exact Option.some_or
    · exact Option.none_or
  refine ⟨h.store, h.outages, h.reads, ?_, ?_, ?_⟩
  · intro x
    rw [hlast, ← h.staged]
    exact Table.get?_set s.tx.writes key staged x
  · intro x
    rw [value_apply_toWrite, hlast, h.shown]
    split <;> rfl
  · exact congrArg (· ++ [_]) h.notes

/-- The two runs go on side by side by a deed. -/
theorem Mirrors.step (h : Mirrors base deeds s d) (deed : Deed) :
    Mirrors base (deeds ++ [deed]) (s.step deed.toMove) (d.step deed) := by
  cases deed with
  | get key => exact h.get key
  | put key value => exact h.change key (some value) fun _ => rfl
  | delete key => exact h.change key none fun _ => rfl

/-- After any row of deeds the two runs have come to the same. -/
theorem mirrors_run (base : Store) (commits opened now : Nat) (deeds : List Deed) :
    Mirrors base deeds
      ((Session.begin now ⟨⟨base, [], commits⟩, opened⟩).run (deeds.map Deed.toMove))
      (direct base deeds) := by
  induction deeds using List.reverseRecOn with
  | nil => exact mirrors_begin base commits opened now
  | append_singleton deeds deed ih =>
    have hstep := ih.step deed
    rw [List.map_append, Session.run, List.foldl_append, direct, List.foldl_append]
    exact hstep

end Mirrors

/-- What becomes of a key that was so in `base` when all changes are made by one commit, of which
this is the last one for the key. -/
def ChangedOnce (base after : Store) (key : String) : Option (Option Bytes) → Prop
  | some (some value) => after.read key = some ⟨value, base.lastVersion key + 1⟩
  | some none => after.read key = none
  | none => after.read key = base.read key ∧ after.lastVersion key = base.lastVersion key

private theorem Mirrors.changedOnce {base : Store} {deeds : List Deed} {s : Session} {d : Direct}
    (h : Mirrors base deeds s d) (key : String) :
    ChangedOnce base (s.tx.toWrites.foldl Store.apply base) key (lastChange? key deeds) := by
  have hstaged := h.staged key
  cases hlast : lastChange? key deeds with
  | none =>
    rw [hlast] at hstaged
    refine base.foldl_apply_of_ne fun w hw hkey => ?_
    obtain ⟨e, he, rfl⟩ := List.mem_map.1 hw
    rw [key_toWrite] at hkey
    have hfound : s.tx.staged? key = some e.2 := (Table.get?_eq_some_iff _ _ _).2 (hkey ▸ he)
    cases hstaged.symm.trans hfound
  | some change =>
    have hread := s.tx.read_foldl_toWrites base (hstaged.trans hlast)
    cases change with
    | some value => exact hread
    | none => exact hread

/-- After the commit every key has the value that it has where the changes were made at once. -/
theorem Mirrors.value_commit {base : Store} {deeds : List Deed} {s : Session} {d : Direct}
    (h : Mirrors base deeds s d) (key : String) :
    ((s.tx.toWrites.foldl Store.apply base).read key).map Record.value =
      (d.store.read key).map Record.value := by
  have hchanged := h.changedOnce key
  rw [h.shown]
  generalize lastChange? key deeds = change at hchanged ⊢
  rcases change with _ | _ | value
  · exact congrArg (Option.map Record.value) hchanged.1
  · exact congrArg (Option.map Record.value) hchanged
  · exact congrArg (Option.map Record.value) hchanged

/-- A commit makes one change for each key that was touched. -/
theorem Mirrors.size_writes {base : Store} {deeds : List Deed} {s : Session} {d : Direct}
    (h : Mirrors base deeds s d) :
    s.tx.writes.size = (deeds.filterMap Deed.touched?).toFinset.card := by
  have hkeys : s.tx.writes.keys.toFinset = (deeds.filterMap Deed.touched?).toFinset := by
    ext key
    rw [List.mem_toFinset, List.mem_toFinset, Table.mem_keys_iff, ← isSome_lastChange?_iff,
      ← h.staged]
    exact Iff.rfl
  have hnodup : s.tx.writes.keys.Nodup := s.tx.writes.nodup
  rw [← hkeys, List.toFinset_card_of_nodup hnodup]
  exact (List.length_map _).symm

/-- A scripted transaction whose commit is taken reports the notes of its work and how many keys it
wrote, and makes what it has staged. -/
theorem Session.execute_of_taken {moves : List Move} {now : Nat} {m : Transactions}
    (h : let s := (begin now m).run moves
      (s.transactions.store.commit s.tx.toWrites s.tx.reads).1 = .ok ()) (hooks : List HookScript) :
    let s := (begin now m).run moves
    let r := (TxAction.execute (moves.map Move.toAction) hooks).runAlone now m
    (∃ c, r.1.result = .ok c ∧ c.tx.writes = s.tx.writes.size) ∧ r.1.notes = s.notes ∧
      r.2.2.store.store = s.tx.toWrites.foldl Store.apply s.store := by
  intro s r
  have hr : r = _ := runAlone_execute moves hooks now m
  have hconclude := Transactions.conclude_of_ok h now moves.length
    (hooks.map HookScript.toHook) (s.notes, [])
  dsimp only at hr hconclude
  rw [hconclude] at hr
  rw [hr]
  refine ⟨⟨_, rfl, rfl⟩, HookScript.notes_callAll _ _ _ hooks _, ?_⟩
  exact (Store.commit_eq_ok_iff.1 (UnreliableStore.commit_of_ok h)).1

/-- While nobody else commits, a transaction answers every read as if its changes were made at once,
and its commit is taken. Every key then has the value that it would have; the last change of a key
counts as one write of it, a removed key is gone, and the other keys stay as they are. The number of
writes is that of the keys that were touched. -/
theorem staged_as_direct (deeds : List Deed) (hooks : List HookScript) (now : Nat) (base : Store)
    (commits opened : Nat) :
    let m : Transactions := ⟨⟨base, [], commits⟩, opened⟩
    let work := (deeds.map Deed.toMove).map Move.toAction
    let r := (TxAction.execute work hooks).runAlone now m
    let after := r.2.2.store.store
    (∃ c, r.1.result = .ok c ∧ c.tx.writes = (deeds.filterMap Deed.touched?).toFinset.card) ∧
      r.1.notes = (direct base deeds).notes ∧
      ∀ key, (after.read key).map Record.value =
          ((direct base deeds).store.read key).map Record.value ∧
        ChangedOnce base after key (lastChange? key deeds) := by
  intro m work r after
  let s := (Session.begin now m).run (deeds.map Deed.toMove)
  have hmirrors : Mirrors base deeds s (direct base deeds) :=
    mirrors_run base commits opened now deeds
  have hstore : s.transactions.store.store = base := hmirrors.store
  have htakes : s.transactions.store.TakesCommits := by
    rw [UnreliableStore.TakesCommits, hmirrors.outages]
    exact List.forall_mem_nil _
  have hcurrent : ∀ key version, s.tx.reads.get? key = some version →
      s.transactions.store.store.version? key = version := by
    rw [hstore]
    exact hmirrors.reads
  have htaken : (s.transactions.store.commit s.tx.toWrites s.tx.reads).1 = .ok () :=
    congrArg Prod.fst (htakes.commit_of_current s.tx.toWrites hcurrent)
  obtain ⟨⟨c, hresult, hwrites⟩, hnotes, hafter⟩ := Session.execute_of_taken htaken hooks
  rw [hmirrors.store] at hafter
  refine ⟨⟨c, hresult, hwrites.trans hmirrors.size_writes⟩, hnotes.trans hmirrors.notes,
    fun key => ?_⟩
  rw [show after = s.tx.toWrites.foldl Store.apply base from hafter]
  exact ⟨hmirrors.value_commit key, hmirrors.changedOnce key⟩

end Tx

end Flotilla
