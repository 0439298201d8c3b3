import Flotilla.Table
import Flotilla.Topic

/-!
# Subscriptions

Who wants which messages: patterns with a listener each, in the order in which they were made.
Their numbers count up from 1 and are never given out twice.
-/

namespace Flotilla

/-- A subscription. -/
structure Subscription (α : Type) where
  /-- Its number. -/
  id : Nat
  /-- The pattern of the topics it is for. -/
  pattern : String
  /-- Who is listening. -/
  listener : α
  deriving DecidableEq, Repr

/-- The subscriptions of a channel. -/
structure Subscriptions (α : Type) where
  /-- The number given out last. -/
  lastId : Nat
  /-- Those in force, oldest first. -/
  entries : List (Subscription α)
  deriving DecidableEq, Repr

namespace Subscriptions

variable {α : Type}

/-- No subscriptions yet. -/
def empty : Subscriptions α := ⟨0, []⟩

/-- Add a subscription; returns its number. -/
def add (s : Subscriptions α) (pattern : String) (listener : α) : Nat × Subscriptions α :=
  let id := s.lastId + 1
  (id, ⟨id, s.entries ++ [⟨id, pattern, listener⟩]⟩)

/-- Remove a subscription; says whether it was there. -/
def remove (s : Subscriptions α) (id : Nat) : Bool × Subscriptions α :=
  (s.entries.any (·.id = id), { s with entries := s.entries.filter (·.id ≠ id) })

/-- The subscriptions that a message on `topic` goes to, in order. -/
def matching (s : Subscriptions α) (topic : String) : List (Subscription α) :=
  s.entries.filter fun e => Topic.covers e.pattern topic

/-- How many there are. -/
def size (s : Subscriptions α) : Nat := s.entries.length

/-- Whether there is none. -/
def isEmpty (s : Subscriptions α) : Bool := s.entries.isEmpty

end Subscriptions

end Flotilla
