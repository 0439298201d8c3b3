import Flotilla.Fault
import Flotilla.Table
import Flotilla.Text.Utf8

/-!
# The store

Records under text keys, each with a version that counts the writes of its key. A commit carries
the versions that its transaction read; it is taken as a whole or, when one of those versions is
no longer current, refused as a whole. Deleting a key keeps its last version aside, so that a key
written again goes on counting.
-/

namespace Flotilla

/-- What the store holds under a key. -/
structure Record where
  /-- The bytes. -/
  value : Bytes
  /-- How often the key has been written. -/
  version : Nat
  deriving DecidableEq, Repr

/-- A change of one key. -/
inductive Write where
  /-- Write these bytes. -/
  | put (key : String) (value : Bytes)
  /-- Remove the key. -/
  | delete (key : String)
  deriving DecidableEq, Repr

/-- The key that a write changes. -/
def Write.key : Write → String
  | .put key _ => key
  | .delete key => key

/-- Whether a text starts with another. -/
def startsWith (start text : String) : Bool := start.toList.isPrefixOf text.toList

/-- The records, and the last versions of the keys that were deleted. -/
structure Store where
  /-- What can be read. -/
  records : Table String Record
  /-- The last version of each deleted key. -/
  tombstones : Table String Nat
  deriving DecidableEq, Repr

namespace Store

/-- The store that nothing has been written to. -/
def empty : Store := ⟨∅, ∅⟩

instance : Inhabited Store := ⟨empty⟩

/-- What is under a key. -/
def read (s : Store) (key : String) : Option Record := s.records.get? key

/-- The version of a key, if it is there. -/
def version? (s : Store) (key : String) : Option Nat := (s.read key).map Record.version

/-- The last version that a key ever had; 0 before its first write. -/
def lastVersion (s : Store) (key : String) : Nat :=
  match s.version? key with
  | some version => version
  | none => (s.tombstones.get? key).getD 0

/-- Make one change. -/
def apply (s : Store) : Write → Store
  | .put key value =>
    ⟨s.records.set key ⟨value, s.lastVersion key + 1⟩, s.tombstones.erase key⟩
  | .delete key =>
    match s.read key with
    | some record => ⟨s.records.erase key, s.tombstones.set key record.version⟩
    | none => s

/-- The first key whose version is not the one that was read. -/
def conflict? (s : Store) (reads : Table String (Option Nat)) : Option String :=
  (reads.entries.find? fun read => s.version? read.1 ≠ read.2).map Prod.fst

/-- Make all changes, unless a key that was read has changed since. -/
def commit (s : Store) (writes : List Write) (reads : Table String (Option Nat)) :
    Except Fault Store :=
  match s.conflict? reads with
  | some key => .error (.commitConflict key)
  | none => .ok (writes.foldl apply s)

/-- The records whose keys start with `start`, in the order of their keys. -/
def scan (s : Store) (start : String) : List (String × Record) :=
  (s.records.entries.filter fun e => startsWith start e.1).mergeSort fun a b => a.1 ≤ b.1

/-- How many keys there are. -/
def size (s : Store) : Nat := s.records.size

/-- Whether there is no key. -/
def isEmpty (s : Store) : Bool := s.records.isEmpty

end Store

end Flotilla
