import Flotilla.Proofs.Store.Versions

/-!
# Writes are numbered

Every key numbers its writes: the first write that is ever made under it gets the version 1, the
next one 2, and so on, also within one commit and over all removals in between. So the versions of
a key tell its writes apart, and what a store holds of a key at any moment comes from its last
write: either that can be read, or its version is kept aside (`Store.Stands`).
-/

namespace Flotilla

/-- What a write puts under a key. -/
def Write.valueFor? (key : String) : Write → Option Bytes
  | .put k value => if k = key then some value else none
  | .delete _ => none

namespace Store

/-- The record that a change makes under a key: if it writes the key, what can be read right after
it. -/
def madeBy (key : String) (s : Store) (w : Write) : Option Record :=
  if (w.valueFor? key).isSome then (s.apply w).read key else none

/-- The records that a row of changes makes under a key, the earliest first. -/
def made (key : String) (s : Store) : List Write → List Record
  | [] => []
  | w :: writes => (s.madeBy key w).toList ++ made key (s.apply w) writes

/-- Values as the records of writes that are numbered from `first` on. -/
def numbered (first : Nat) (values : List Bytes) : List Record :=
  (values.zipIdx first).map fun e => ⟨e.1, e.2⟩

/-- What a store holds of a key under which these records were made: the last of them, or only its
version. -/
inductive Stands (s : Store) (key : String) (records : List Record) : Prop where
  /-- The last record can be read, and no version is kept aside. -/
  | live (read : s.read key = records.getLast?) (aside : s.tombstones.get? key = none)
  /-- The key cannot be read, and its last version is kept aside. -/
  | removed (read : s.read key = none)
      (aside : s.tombstones.get? key = records.getLast?.map Record.version)

variable {s : Store} {key : String} {records : List Record}

/-- A key that a change does not write keeps its last version, and the others count on. -/
theorem lastVersion_apply (s : Store) (w : Write) (key : String) : (s.apply w).lastVersion key =
    s.lastVersion key + if (w.valueFor? key).isSome then 1 else 0 := by
  cases w with
  | put written value =>
    rw [lastVersion_apply_put, Write.valueFor?]
    split
    · next h => rw [h, Option.isSome_some, if_pos rfl]
    · rw [Option.isSome_none, if_neg Bool.false_ne_true, Nat.add_zero]
  | delete removed => exact lastVersion_apply_delete s removed key

/-- A write is given the number after the last version of its key. -/
theorem madeBy_eq (key : String) (s : Store) (w : Write) :
    s.madeBy key w = (w.valueFor? key).map fun value => ⟨value, s.lastVersion key + 1⟩ := by
  cases w with
  | put written value =>
    rw [madeBy, Write.valueFor?, read_apply_put]
    split
    · next h => rw [h, Option.isSome_some, if_pos rfl, Option.map_some]
    · rw [Option.isSome_none, if_neg Bool.false_ne_true, Option.map_none]
  | delete removed => rfl

/-- The version that is kept aside for a key after a write. -/
theorem aside_apply_put (s : Store) (written : String) (value : Bytes) (x : String) :
    (s.apply (.put written value)).tombstones.get? x =
      if written = x then none else s.tombstones.get? x :=
  Table.get?_erase s.tombstones written x

/-- The version that is kept aside for a key after a removal: that of the record which could be
read, or else the one that was kept before. -/
theorem aside_apply_delete (s : Store) (removed x : String) :
    (s.apply (.delete removed)).tombstones.get? x =
      if removed = x then (s.version? x).or (s.tombstones.get? x) else s.tombstones.get? x := by
  by_cases hx : removed = x
  · subst hx
    rw [if_pos rfl, version?]
    cases h : s.read removed with
    | some record => simp only [apply, h, Table.get?_set_self, Option.map_some, Option.some_or]
    | none => simp only [apply, h, Option.map_none, Option.none_or]
  · rw [if_neg hx]
    cases h : s.read removed with
    | some record => simp only [apply, h, Table.get?_set_ne _ _ hx]
    | none => simp only [apply, h]

/-- A change that does not concern a key leaves alone what the store holds of it. -/
theorem Stands.of_eq {t : Store} (h : s.Stands key records) (hread : t.read key = s.read key)
    (haside : t.tombstones.get? key = s.tombstones.get? key) : t.Stands key records := by
  cases h with
  | live read aside => exact .live (hread.trans read) (haside.trans aside)
  | removed read aside => exact .removed (hread.trans read) (haside.trans aside)

/-- After a change a store holds of a key what the last record that was made under it says. -/
theorem Stands.apply (h : s.Stands key records) (w : Write) :
    (s.apply w).Stands key (records ++ (s.madeBy key w).toList) := by
  rw [madeBy_eq]
  cases w with
  | put written value =>
    have hread := read_apply_put s written value key
    have haside := aside_apply_put s written value key
    rw [Write.valueFor?]
    by_cases hk : written = key
    · rw [if_pos hk] at hread haside ⊢
      refine .live ?_ haside
      rw [hread, Option.map_some, Option.toList_some, List.getLast?_concat, hk]
    · rw [if_neg hk] at hread haside ⊢
      rw [Option.map_none, Option.toList_none, List.append_nil]
      exact h.of_eq hread haside
  | delete removed =>
    have hread := read_apply_delete s removed key
    have haside := aside_apply_delete s removed key
    rw [Write.valueFor?, Option.map_none, Option.toList_none, List.append_nil]
    by_cases hk : removed = key
    · rw [if_pos hk] at hread haside
      refine .removed hread (haside.trans ?_)
      cases h with
      | live read aside => rw [version?, read, aside, Option.or_none]
      | removed read aside => rw [version?, read, Option.map_none, Option.none_or, aside]
    · rw [if_neg hk] at hread haside
      exact h.of_eq hread haside

/-- The records that a row of changes makes under a key are its values in their order, numbered on
from the last version of the key. -/
theorem made_eq (key : String) (s : Store) (writes : List Write) : s.made key writes =
    numbered (s.lastVersion key + 1) (writes.filterMap (Write.valueFor? key)) := by
  induction writes generalizing s with
  | nil => rfl
  | cons w writes ih =>
    rw [made, madeBy_eq, ih, lastVersion_apply]
    cases hvalue : w.valueFor? key with
    | none =>
      rw [List.filterMap_cons_none hvalue, Option.isSome_none, if_neg Bool.false_ne_true]
      rfl
    | some value =>
      rw [List.filterMap_cons_some hvalue, Option.isSome_some, if_pos rfl]
      rfl

/-- A row of writes makes the records that it is said to make. -/
theorem Stands.foldl (h : s.Stands key records) (writes : List Write) :
    (writes.foldl Store.apply s).Stands key (records ++ s.made key writes) := by
  induction writes generalizing s records with
  | nil =>
    rw [made, List.append_nil]
    exact h
  | cons w writes ih =>
    rw [made, ← List.append_assoc]
    exact ih (h.apply w)

/-- A commit that somebody tries. -/
structure Attempt where
  /-- The changes. -/
  writes : List Write
  /-- The versions that were read. -/
  reads : Table String (Option Nat)
  deriving DecidableEq, Repr

/-- The store after a commit was tried; one that is refused leaves it as it is. -/
def attempt (s : Store) (a : Attempt) : Store :=
  match s.commit a.writes a.reads with
  | .ok t => t
  | .error _ => s

/-- The store after commits were tried one after the other on an empty one. -/
def run (attempts : List Attempt) : Store := attempts.foldl attempt empty

/-- The changes of the commits that are taken, in the order in which they are made. -/
def taken (s : Store) : List Attempt → List Write
  | [] => []
  | a :: attempts =>
    match s.commit a.writes a.reads with
    | .ok t => a.writes ++ t.taken attempts
    | .error _ => s.taken attempts

/-- Commits that are tried make the changes of those that are taken. -/
theorem foldl_attempt (s : Store) (attempts : List Attempt) :
    attempts.foldl attempt s = (s.taken attempts).foldl apply s := by
  induction attempts generalizing s with
  | nil => rfl
  | cons a attempts ih =>
    rw [List.foldl_cons, ih, attempt, taken]
    cases hc : s.commit a.writes a.reads with
    | error fault => rfl
    | ok t =>
      rw [List.foldl_append, (commit_eq_ok_iff.1 hc).1]

/-- Every key evolves in a row of commits. -/
theorem evolved_attempts (key : String) (s : Store) (attempts : List Attempt) :
    Evolved key s (attempts.foldl attempt s) := by
  rw [foldl_attempt]
  exact evolved_foldl key s (s.taken attempts)

/-- A record that is read at two moments under the same version is the same record. -/
theorem Evolved.eq_of_version {t : Store} (h : Evolved key s t) {record later : Record}
    (hs : s.read key = some record) (ht : t.read key = some later)
    (hversion : later.version = record.version) : later = record := by
  rcases h.read_eq_or_lt with heq | hlt
  · rw [heq, hs, Option.some.injEq] at ht
    exact ht.symm
  · have hnew := hlt later ht
    rw [lastVersion_of_read hs] at hnew
    omega

/-- In every row of commits the writes of a key are numbered 1, 2, 3, ... in the order in which
they are made; the store holds the last of them or, when the key has been removed, its version; and
a version that is read at two moments stands for the same bytes. -/
theorem numbered_run (attempts more : List Attempt) (key : String) :
    let writes := empty.taken attempts
    let records := empty.made key writes
    run attempts = writes.foldl apply empty ∧
      records = numbered 1 (writes.filterMap (Write.valueFor? key)) ∧
      (run attempts).Stands key records ∧
      ∀ record later, (run attempts).read key = some record →
        (run (attempts ++ more)).read key = some later →
          later.version = record.version → later.value = record.value := by
  intro writes records
  have hrun : run attempts = writes.foldl apply empty := foldl_attempt empty attempts
  refine ⟨hrun, made_eq key empty writes, ?_, ?_⟩
  · have hempty : Stands empty key [] := .live rfl rfl
    rw [hrun]
    exact hempty.foldl writes
  · intro record later hrecord hlater hversion
    have hevolved := evolved_attempts key (run attempts) more
    rw [run, List.foldl_append] at hlater
    rw [hevolved.eq_of_version hrecord hlater hversion]

/-- Commits that write a key twice at once, remove it, are refused because of an old version, and
write, remove and write it again at once. -/
def rewritten : List Attempt :=
  [⟨[.put "k" [1], .put "k" [2]], ∅⟩, ⟨[.delete "k"], ∅⟩,
    ⟨[.put "k" [9]], .ofList [("k", some 2)]⟩, ⟨[.put "k" [3], .delete "k", .put "k" [4]], ∅⟩]

/-- A commit of another key and one that is refused. -/
def elsewhere : List Attempt :=
  [⟨[.put "other" [5]], ∅⟩, ⟨[.delete "k"], .ofList [("k", some 2)]⟩]

/-- A key that is removed and written again goes on with its numbers. -/
theorem numbered_run_rewritten :
    empty.made "k" (empty.taken rewritten) = [⟨[1], 1⟩, ⟨[2], 2⟩, ⟨[3], 3⟩, ⟨[4], 4⟩] ∧
      (run rewritten).Stands "k" [⟨[1], 1⟩, ⟨[2], 2⟩, ⟨[3], 3⟩, ⟨[4], 4⟩] ∧
      ∃ later, (run (rewritten ++ elsewhere)).read "k" = some later ∧ later.version = 4 ∧
        later.value = [4] := by
  obtain ⟨-, hrecords, hstands, hsame⟩ := numbered_run rewritten elsewhere "k"
  have hvalues :
      (empty.taken rewritten).filterMap (Write.valueFor? "k") = [[1], [2], [3], [4]] := by
    decide +kernel
  have hmade : empty.made "k" (empty.taken rewritten) =
      [⟨[1], 1⟩, ⟨[2], 2⟩, ⟨[3], 3⟩, ⟨[4], 4⟩] := by
    rw [hrecords, hvalues]
    rfl
  have hlater : (run (rewritten ++ elsewhere)).read "k" = some ⟨[4], 4⟩ := by decide +kernel
  exact ⟨hmade, hmade ▸ hstands, ⟨[4], 4⟩, hlater, rfl,
    hsame ⟨[4], 4⟩ ⟨[4], 4⟩ (by decide +kernel) hlater rfl⟩

end Store

end Flotilla
