import Flotilla.Fault
import Flotilla.Table

/-!
# Deadlines

A queue of deadlines, at most one per request key. An index in the order of time, keys breaking
ties, stands beside the table of entries, so that the next one to come is at its front. Firing
takes everything that is due, in that order; a deadline that was called off never fires.
-/

namespace Flotilla

/-- Deadlines with what is to be told when they fire. -/
structure DeadlineQueue (α : Type) where
  /-- Deadlines and keys, the earliest first. -/
  order : List (Nat × CorrelationKey)
  /-- The deadline of each key, and what is to be told. -/
  entries : Table CorrelationKey (Nat × α)
  deriving DecidableEq, Repr

namespace DeadlineQueue

variable {α : Type}

/-- Whether a place in the order is before another: by time, then by key. -/
def before (a b : Nat × CorrelationKey) : Bool := a.1 < b.1 || (a.1 = b.1 && a.2 < b.2)

/-- Put a deadline in its place; one that is already there is not repeated. -/
def insert (a : Nat × CorrelationKey) : List (Nat × CorrelationKey) → List (Nat × CorrelationKey)
  | [] => [a]
  | b :: rest =>
    if before a b then a :: b :: rest
    else if a = b then b :: rest
    else b :: insert a rest

/-- The queue without deadlines. -/
def empty : DeadlineQueue α := ⟨[], ∅⟩

instance : Inhabited (DeadlineQueue α) := ⟨empty⟩

/-- Add a deadline for a key that has none. -/
def schedule (q : DeadlineQueue α) (key : CorrelationKey) (deadline : Nat) (tell : α) :
    Except Fault (DeadlineQueue α) :=
  if q.entries.contains key then
    .error (.invariant ("deadline already scheduled for request " ++ Text.decimal key.toNat))
  else .ok ⟨insert (deadline, key) q.order, q.entries.set key (deadline, tell)⟩

/-- Call a deadline off; says whether there was one. -/
def cancel (q : DeadlineQueue α) (key : CorrelationKey) : Bool × DeadlineQueue α :=
  match q.entries.get? key with
  | some (deadline, _) =>
    (true, ⟨q.order.filter (· ≠ (deadline, key)), q.entries.erase key⟩)
  | none => (false, q)

/-- Take what is due from an order and its entries. -/
def takeDue (now : Nat) :
    List (Nat × CorrelationKey) → Table CorrelationKey (Nat × α) →
      List (CorrelationKey × α) × DeadlineQueue α
  | [], entries => ([], ⟨[], entries⟩)
  | (deadline, key) :: rest, entries =>
    if now < deadline then ([], ⟨(deadline, key) :: rest, entries⟩)
    else
      match entries.get? key with
      | some (_, tell) =>
        let (fired, q) := takeDue now rest (entries.erase key)
        ((key, tell) :: fired, q)
      | none => takeDue now rest entries

/-- Fire everything that is due at `now`; returns what fired, in order. -/
def fire (q : DeadlineQueue α) (now : Nat) : List (CorrelationKey × α) × DeadlineQueue α :=
  takeDue now q.order q.entries

/-- The earliest deadline. -/
def next? (q : DeadlineQueue α) : Option Nat := q.order.head?.map Prod.fst

/-- How many keys have a deadline. -/
def size (q : DeadlineQueue α) : Nat := q.entries.size

/-- Whether no key has a deadline. -/
def isEmpty (q : DeadlineQueue α) : Bool := q.entries.isEmpty

end DeadlineQueue

end Flotilla
