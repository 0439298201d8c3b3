import Flotilla.Store.Outage
import Mathlib.Logic.Basic

/-!
# Versions only grow

A key's last version never falls, and a write is always given a version that its key never had.
So between two moments of a store a key either still reads as it did, or reads as something with
a version beyond all earlier ones (`Store.Evolved`). This holds of every change, hence of every
row of commits, and it is what makes a version stand for one value.
-/

namespace Flotilla.Store

variable {s t u : Store} {key : String}

/-- What may have become of a key from one moment of a store to a later one. -/
structure Evolved (key : String) (s t : Store) : Prop where
  /-- Its last version has not fallen. -/
  lastVersion_le : s.lastVersion key ≤ t.lastVersion key
  /-- What it reads as now is what it read as then, or was written since. -/
  read_eq_or_lt : t.read key = s.read key ∨
    ∀ record, t.read key = some record → s.lastVersion key < record.version

/-- A record that can be read has the last version of its key. -/
theorem lastVersion_of_read {record : Record} (h : s.read key = some record) :
    s.lastVersion key = record.version := by
  simp only [lastVersion, version?, h, Option.map_some]

/-- The last version of a key that cannot be read is the one kept aside. -/
theorem lastVersion_of_absent (h : s.read key = none) :
    s.lastVersion key = (s.tombstones.get? key).getD 0 := by
  simp only [lastVersion, version?, h, Option.map_none]

/-- A store that does nothing has evolved. -/
theorem Evolved.refl (key : String) (s : Store) : Evolved key s s := ⟨Nat.le_refl _, Or.inl rfl⟩

/-- What has evolved twice has evolved. -/
theorem Evolved.trans (h : Evolved key s t) (k : Evolved key t u) : Evolved key s u := by
  refine ⟨Nat.le_trans h.lastVersion_le k.lastVersion_le, ?_⟩
  rcases k.read_eq_or_lt with hread | hnew
  · rw [hread]
    exact h.read_eq_or_lt
  · exact Or.inr fun record hr => Nat.lt_of_le_of_lt h.lastVersion_le (hnew record hr)

/-- What a key reads as after a write. -/
theorem read_apply_put (s : Store) (key : String) (value : Bytes) (x : String) :
    (s.apply (.put key value)).read x =
      if key = x then some ⟨value, s.lastVersion key + 1⟩ else s.read x :=
  Table.get?_set s.records key ⟨value, s.lastVersion key + 1⟩ x

/-- What a key reads as after a removal. -/
theorem read_apply_delete (s : Store) (key x : String) :
    (s.apply (.delete key)).read x = if key = x then none else s.read x := by
  cases h : s.read key with
  | some record =>
    simp only [apply, h]
    exact Table.get?_erase s.records key x
  | none =>
    simp only [apply, h]
    by_cases hx : key = x
    · rw [if_pos hx, ← hx, h]
    · rw [if_neg hx]

/-- A write raises the last version of its key by one and leaves those of other keys alone. -/
theorem lastVersion_apply_put (s : Store) (key : String) (value : Bytes) (x : String) :
    (s.apply (.put key value)).lastVersion x =
      if key = x then s.lastVersion key + 1 else s.lastVersion x := by
  have hread := read_apply_put s key value x
  by_cases hx : key = x
  · rw [if_pos hx] at hread ⊢
    exact lastVersion_of_read hread
  · rw [if_neg hx] at hread ⊢
    have htomb : (s.apply (.put key value)).tombstones.get? x = s.tombstones.get? x := by
      rw [apply, Table.get?_erase, if_neg hx]
    simp only [lastVersion, version?, hread, htomb]

/-- A removal leaves all last versions alone. -/
theorem lastVersion_apply_delete (s : Store) (key x : String) :
    (s.apply (.delete key)).lastVersion x = s.lastVersion x := by
  cases hk : s.read key with
  | none => simp only [apply, hk]
  | some record =>
    have hread := read_apply_delete s key x
    have htomb : (s.apply (.delete key)).tombstones.get? x =
        if key = x then some record.version else s.tombstones.get? x := by
      simp only [apply, hk, Table.get?_set]
    by_cases hx : key = x
    · rw [if_pos hx] at hread htomb
      rw [lastVersion_of_absent hread, htomb, ← hx, lastVersion_of_read hk, Option.getD_some]
    · rw [if_neg hx] at hread htomb
      simp only [lastVersion, version?, hread, htomb]

/-- One change lets every key evolve. -/
theorem evolved_apply (key : String) (s : Store) (w : Write) : Evolved key s (s.apply w) := by
  cases w with
  | put written value =>
    constructor
    · rw [lastVersion_apply_put]
      split
      · next h => rw [h]; exact Nat.le_succ _
      · exact Nat.le_refl _
    · rw [read_apply_put]
      split
      · next h =>
        right
        intro record hr
        cases hr
        rw [h]
        exact Nat.lt_succ_self _
      · exact Or.inl rfl
  | delete removed =>
    constructor
    · exact Nat.le_of_eq (lastVersion_apply_delete s removed key).symm
    · rw [read_apply_delete]
      split
      · right
        intro record hr
        cases hr
      · exact Or.inl rfl

/-- So does a row of changes. -/
theorem evolved_foldl (key : String) (s : Store) (writes : List Write) :
    Evolved key s (writes.foldl apply s) := by
  induction writes generalizing s with
  | nil => exact .refl key s
  | cons w writes ih => exact (evolved_apply key s w).trans (ih (s.apply w))

/-- A change of other keys leaves what a key reads as alone. -/
theorem read_apply_of_ne (s : Store) {w : Write} {x : String} (h : w.key ≠ x) :
    (s.apply w).read x = s.read x := by
  cases w with
  | put key value => exact (read_apply_put s key value x).trans (if_neg h)
  | delete key => exact (read_apply_delete s key x).trans (if_neg h)

/-- A change of other keys leaves the last version of a key alone. -/
theorem lastVersion_apply_of_ne (s : Store) {w : Write} {x : String} (h : w.key ≠ x) :
    (s.apply w).lastVersion x = s.lastVersion x := by
  cases w with
  | put key value => exact (lastVersion_apply_put s key value x).trans (if_neg h)
  | delete key => exact lastVersion_apply_delete s key x

/-- Changes of other keys leave a key alone. -/
theorem foldl_apply_of_ne (s : Store) {writes : List Write} {x : String}
    (h : ∀ w ∈ writes, w.key ≠ x) :
    (writes.foldl apply s).read x = s.read x ∧
      (writes.foldl apply s).lastVersion x = s.lastVersion x := by
  induction writes generalizing s with
  | nil => exact ⟨rfl, rfl⟩
  | cons w writes ih =>
    have hw := h w List.mem_cons_self
    obtain ⟨hread, hversion⟩ := ih (s.apply w) fun v hv => h v (List.mem_cons_of_mem w hv)
    exact ⟨hread.trans (read_apply_of_ne s hw), hversion.trans (lastVersion_apply_of_ne s hw)⟩

/-- There is no conflict when every version that was read is still the current one. -/
theorem conflict?_eq_none_iff {reads : Table String (Option Nat)} : s.conflict? reads = none ↔
    ∀ key version, reads.get? key = some version → s.version? key = version := by
  simp only [conflict?, Option.map_eq_none_iff, List.find?_eq_none, decide_eq_true_eq, ne_eq,
    not_not, Table.get?_eq_some_iff]
  exact ⟨fun h key version hm => h (key, version) hm, fun h e hm => h e.1 e.2 hm⟩

/-- A commit that is taken makes its changes in order, and every version that was read is still
the current one. -/
theorem commit_eq_ok_iff {writes : List Write} {reads : Table String (Option Nat)} :
    s.commit writes reads = .ok t ↔
      t = writes.foldl apply s ∧
        ∀ key version, reads.get? key = some version → s.version? key = version := by
  rw [← conflict?_eq_none_iff, commit]
  cases s.conflict? reads with
  | none => simp only [Except.ok.injEq, and_true, eq_comm]
  | some k => simp only [reduceCtorEq, and_false]

/-- A commit that is taken lets every key evolve. -/
theorem evolved_commit {writes : List Write} {reads : Table String (Option Nat)}
    (h : s.commit writes reads = .ok t) (key : String) : Evolved key s t := by
  rw [(commit_eq_ok_iff.1 h).1]
  exact evolved_foldl key s writes

end Flotilla.Store

namespace Flotilla.UnreliableStore

/-- Asking the outages leaves the store behind alone. -/
@[simp] theorem store_judge (s : UnreliableStore) (call : StoreCall) (number : Nat)
    (keys : List String) : (s.judge call number keys).2.store = s.store := rfl

/-- A read changes nothing in the store behind. -/
@[simp] theorem store_read (s : UnreliableStore) (key : String) :
    (s.read key).2.store = s.store := by
  unfold read
  split <;> next h => exact (congrArg (fun r => r.2.store) h).symm

/-- So does a scan. -/
@[simp] theorem store_scan (s : UnreliableStore) (start : String) :
    (s.scan start).2.store = s.store := by
  unfold scan
  split <;> next h => exact (congrArg (fun r => r.2.store) h).symm

/-- A read that does not fail tells what the store behind holds. -/
theorem read_eq_of_ok {s : UnreliableStore} {key : String} {record : Option Record}
    (h : (s.read key).1 = .ok record) : record = s.store.read key := by
  unfold read at h
  split at h
  · cases h
  · next hj =>
    cases h
    exact congrArg (fun r => r.2.store.read key) hj.symm

/-- So does a scan that does not fail. -/
theorem scan_eq_of_ok {s : UnreliableStore} {start : String} {records : List (String × Record)}
    (h : (s.scan start).1 = .ok records) : records = s.store.scan start := by
  unfold scan at h
  split at h
  · cases h
  · next hj =>
    cases h
    exact congrArg (fun r => r.2.store.scan start) hj.symm

/-- A commit past the outages lets every key evolve, taken or refused. -/
theorem evolved_commitBehind (s : UnreliableStore) (writes : List Write)
    (reads : Table String (Option Nat)) (key : String) :
    s.store.Evolved key (s.commitBehind writes reads).2.store := by
  unfold commitBehind
  split
  · exact .refl key s.store
  · next h => exact Store.evolved_commit h key

/-- A commit that is taken is taken by the store behind. -/
theorem commit_of_ok {s : UnreliableStore} {writes : List Write}
    {reads : Table String (Option Nat)} (h : (s.commit writes reads).1 = .ok ()) :
    s.store.commit writes reads = .ok (s.commit writes reads).2.store := by
  unfold commit at h ⊢
  dsimp only at h ⊢
  split at h
  · cases h
  · next hj =>
    have hs := congrArg (fun r => r.2.store) hj
    dsimp only [store_judge] at hs
    split at h
    · cases h
    · next store hc =>
      rw [hs]
      exact hc

/-- A commit that is refused changes nothing in the store behind. -/
theorem store_commit_of_error {s : UnreliableStore} {writes : List Write}
    {reads : Table String (Option Nat)} {fault : Fault}
    (h : (s.commit writes reads).1 = .error fault) :
    (s.commit writes reads).2.store = s.store := by
  unfold commit at h ⊢
  dsimp only at h ⊢
  split at h
  · next hj => exact (congrArg (fun r => r.2.store) hj).symm
  · next hj =>
    have hs := congrArg (fun r => r.2.store) hj
    split at h
    · exact hs.symm
    · cases h

/-- Whatever becomes of a commit of other keys, it leaves a key alone. -/
theorem commit_of_ne (s : UnreliableStore) {writes : List Write}
    (reads : Table String (Option Nat)) {x : String} (h : ∀ w ∈ writes, w.key ≠ x) :
    (s.commit writes reads).2.store.read x = s.store.read x ∧
      (s.commit writes reads).2.store.lastVersion x = s.store.lastVersion x := by
  cases hr : (s.commit writes reads).1 with
  | error fault => rw [store_commit_of_error hr]; exact ⟨rfl, rfl⟩
  | ok =>
    rw [(Store.commit_eq_ok_iff.1 (commit_of_ok hr)).1]
    exact s.store.foldl_apply_of_ne h

/-- A commit leaves the keys alone that it does not write to. -/
theorem commitBehind_of_ne (s : UnreliableStore) {writes : List Write}
    (reads : Table String (Option Nat)) {x : String} (h : ∀ w ∈ writes, w.key ≠ x) :
    (s.commitBehind writes reads).2.store.read x = s.store.read x ∧
      (s.commitBehind writes reads).2.store.lastVersion x = s.store.lastVersion x := by
  unfold commitBehind
  split
  · exact ⟨rfl, rfl⟩
  · next hc =>
    rw [(Store.commit_eq_ok_iff.1 hc).1]
    exact s.store.foldl_apply_of_ne h

end Flotilla.UnreliableStore
