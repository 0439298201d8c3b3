import Flotilla.Store

/-!
# Stores that fail

A store behind a list of outages: each outage picks calls by their kind, by the number of the
commit and by the keys involved, and makes the picked calls fail. A call that fails changes
nothing in the store behind. Commits are numbered from 1, and those that fail are counted too.
-/

namespace Flotilla

/-- The kinds of calls to a store. -/
inductive StoreCall where
  | commit
  | read
  | scan
  deriving DecidableEq, Repr

/-- Calls that are to fail. -/
structure Outage where
  /-- The kind of call. -/
  call : StoreCall
  /-- Only the commit with this number. -/
  number : Option Nat
  /-- Only commits from this number on. -/
  since : Option Nat
  /-- Only calls with a key that starts with this. -/
  keyStart : Option String
  /-- How many more calls fail; without a bound when absent. -/
  uses : Option Nat
  /-- How they fail. -/
  fault : Fault
  deriving DecidableEq, Repr

namespace Outage

/-- Whether a call is picked. Reads and scans have the number 0. -/
def picks (o : Outage) (call : StoreCall) (number : Nat) (keys : List String) : Bool :=
  o.call = call && o.uses ≠ some 0 && (o.number.all (· = number)) && (o.since.all (· ≤ number)) &&
    o.keyStart.all fun start => keys.any (startsWith start)

/-- The outage after it made a call fail. -/
def used (o : Outage) : Outage := { o with uses := o.uses.map (· - 1) }

/-- The fault of the first outage that picks a call, and the outages afterwards. -/
def judge (call : StoreCall) (number : Nat) (keys : List String) :
    List Outage → Option Fault × List Outage
  | [] => (none, [])
  | o :: rest =>
    if o.picks call number keys then (some o.fault, o.used :: rest)
    else
      let r := judge call number keys rest
      (r.1, o :: r.2)

end Outage

/-- A store and the outages in front of it. -/
structure UnreliableStore where
  /-- The store behind. -/
  store : Store
  /-- What is still to fail. -/
  outages : List Outage
  /-- The commits so far. -/
  commits : Nat
  deriving DecidableEq, Repr

namespace UnreliableStore

/-- An empty store with outages in front. -/
def new (outages : List Outage) : UnreliableStore := ⟨.empty, outages, 0⟩

/-- Ask the outages about a call. -/
def judge (s : UnreliableStore) (call : StoreCall) (number : Nat) (keys : List String) :
    Option Fault × UnreliableStore :=
  let r := Outage.judge call number keys s.outages
  (r.1, { s with outages := r.2 })

/-- Read a key. -/
def read (s : UnreliableStore) (key : String) : Except Fault (Option Record) × UnreliableStore :=
  match s.judge .read 0 [key] with
  | (some fault, s) => (.error fault, s)
  | (none, s) => (.ok (s.store.read key), s)

/-- The records whose keys start with `start`. -/
def scan (s : UnreliableStore) (start : String) :
    Except Fault (List (String × Record)) × UnreliableStore :=
  match s.judge .scan 0 [start] with
  | (some fault, s) => (.error fault, s)
  | (none, s) => (.ok (s.store.scan start), s)

/-- Commit changes. -/
def commit (s : UnreliableStore) (writes : List Write) (reads : Table String (Option Nat)) :
    Except Fault Unit × UnreliableStore :=
  let number := s.commits + 1
  match { s with commits := number }.judge .commit number (writes.map Write.key) with
  | (some fault, s) => (.error fault, s)
  | (none, s) =>
    match s.store.commit writes reads with
    | .error fault => (.error fault, s)
    | .ok store => (.ok (), { s with store })

/-- Commit changes straight to the store behind: no outage applies and nothing is counted. -/
def commitBehind (s : UnreliableStore) (writes : List Write)
    (reads : Table String (Option Nat)) : Except Fault Unit × UnreliableStore :=
  match s.store.commit writes reads with
  | .error fault => (.error fault, s)
  | .ok store => (.ok (), { s with store })

end UnreliableStore

end Flotilla
