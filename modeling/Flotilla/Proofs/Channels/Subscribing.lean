import Flotilla.Message
import Flotilla.Proofs.Histories
import Flotilla.Subscription
import Mathlib.Data.List.Infix
import Mathlib.Data.List.Pairwise

/-!
# Who is handed a message

Subscriptions of a channel are made and given up in any order. These changes alone tell which are in
force (`Subscriptions.Registered`), and a message goes to those in force whose patterns cover its
topic, from the oldest to the youngest (`Subscriptions.Reflects.handedOut`).
-/

namespace Flotilla.Subscriptions

variable {α : Type}

/-- What can happen to the subscriptions of a channel. -/
inductive Change (α : Type) where
  /-- A subscription is made. -/
  | made (s : Subscription α)
  /-- The subscription with this number is given up. -/
  | givenUp (id : Nat)

/-- The subscription that is made. -/
def Change.made? : Change α → Option (Subscription α)
  | .made s => some s
  | .givenUp _ => none

/-- A subscription has been made and has not been given up since. -/
def Registered (s : Subscription α) (changes : List (Change α)) : Prop :=
  ∃ before after, changes = before ++ .made s :: after ∧ .givenUp s.id ∉ after

/-- A message is handed once to each subscription that is in force and covers its topic, and to no
other, from the oldest to the youngest. -/
structure HandedOut (changes : List (Change α)) (m : Message)
    (recipients : List (Subscription α)) : Prop where
  mem_iff : ∀ s, s ∈ recipients ↔ Registered s changes ∧ Topic.covers s.pattern m.topic = true
  order : recipients.Pairwise fun s t => s.id < t.id

/-- The subscriptions are those that the changes have left in force, and are known by their numbers,
which count up. -/
structure Reflects (changes : List (Change α)) (subscriptions : Subscriptions α) : Prop where
  mem_iff : ∀ s, s ∈ subscriptions.entries ↔ Registered s changes
  order : subscriptions.entries.Pairwise fun s t => s.id < t.id
  given : ∀ s ∈ subscriptions.entries, s.id ≤ subscriptions.lastId
  numbers : (changes.filterMap Change.made?).map Subscription.id =
    List.range' 1 subscriptions.lastId

variable {changes : List (Change α)} {subscriptions : Subscriptions α}

/-- The last change makes a subscription, or keeps those it does not give up. -/
theorem registered_concat {s : Subscription α} {x : Change α} :
    Registered s (changes ++ [x]) ↔ x = .made s ∨ Registered s changes ∧ x ≠ .givenUp s.id := by
  constructor
  · rintro ⟨before, after, hsplit, hkept⟩
    rcases split_concat hsplit with ⟨-, rfl, -⟩ | ⟨rest, rfl, rfl⟩
    · exact Or.inl rfl
    · rw [List.mem_append, not_or, List.mem_singleton] at hkept
      exact Or.inr ⟨⟨before, rest, rfl, hkept.1⟩, Ne.symm hkept.2⟩
  · rintro (rfl | ⟨⟨before, after, rfl, hkept⟩, hne⟩)
    · exact ⟨changes, [], rfl, List.not_mem_nil⟩
    · refine ⟨before, after ++ [x], by rw [List.append_assoc, List.cons_append], ?_⟩
      rw [List.mem_append, not_or, List.mem_singleton]
      exact ⟨hkept, Ne.symm hne⟩

/-- Nobody has subscribed to a new channel. -/
theorem reflects_empty : Reflects [] (empty : Subscriptions α) := by
  refine ⟨fun s => ⟨nofun, ?_⟩, .nil, nofun, rfl⟩
  rintro ⟨before, after, hsplit, -⟩
  cases before <;> cases hsplit

/-- A new subscription has the next number. -/
theorem Reflects.add (h : Reflects changes subscriptions) (pattern : String) (listener : α) :
    Reflects (changes ++ [.made ⟨subscriptions.lastId + 1, pattern, listener⟩])
      (subscriptions.add pattern listener).2 := by
  have hold {s : Subscription α} (hs : s ∈ subscriptions.entries) :
      s.id < subscriptions.lastId + 1 := Nat.lt_succ_of_le (h.given s hs)
  refine ⟨fun s => ?_, ?_, fun s hs => ?_, ?_⟩
  · rw [registered_concat, Subscriptions.add, List.mem_append, List.mem_singleton, h.mem_iff]
    constructor
    · rintro (hs | rfl)
      · exact Or.inr ⟨hs, nofun⟩
      · exact Or.inl rfl
    · rintro (hs | ⟨hs, -⟩)
      · cases hs
        exact Or.inr rfl
      · exact Or.inl hs
  · refine List.pairwise_append.2 ⟨h.order, List.pairwise_singleton .., fun s hs t ht => ?_⟩
    cases List.mem_singleton.1 ht
    exact hold hs
  · rcases List.mem_append.1 hs with hs | hs
    · exact Nat.le_of_lt (hold hs)
    · cases List.mem_singleton.1 hs
      exact Nat.le_refl _
  · let s : Subscription α := ⟨subscriptions.lastId + 1, pattern, listener⟩
    have hmade : (changes ++ [Change.made s]).filterMap Change.made? =
        changes.filterMap Change.made? ++ [s] := filterMap_concat_of_some rfl
    rw [hmade, List.map_append, h.numbers, Subscriptions.add, List.range'_1_concat, Nat.add_comm 1]
    rfl

/-- A subscription that is given up leaves the others as they are. -/
theorem Reflects.remove (h : Reflects changes subscriptions) (id : Nat) :
    Reflects (changes ++ [.givenUp id]) (subscriptions.remove id).2 := by
  refine ⟨fun s => ?_, h.order.filter _, fun s hs => h.given s (List.mem_filter.1 hs).1, ?_⟩
  · rw [registered_concat, Subscriptions.remove, List.mem_filter, h.mem_iff, decide_eq_true_eq]
    constructor
    · rintro ⟨hs, hne⟩
      refine Or.inr ⟨hs, ?_⟩
      rintro ⟨⟩
      exact hne rfl
    · rintro (hs | ⟨hs, hne⟩)
      · cases hs
      · exact ⟨hs, fun heq => hne (heq ▸ rfl)⟩
  · have hmade : (changes ++ [Change.givenUp id]).filterMap Change.made? =
        changes.filterMap Change.made? := filterMap_concat_of_none rfl
    rw [hmade]
    exact h.numbers

/-- What is handed out now goes to the subscriptions that are in force. -/
theorem Reflects.handedOut (h : Reflects changes subscriptions) (m : Message) :
    HandedOut changes m (subscriptions.matching m.topic) := by
  refine ⟨fun s => ?_, h.order.filter _⟩
  rw [matching, List.mem_filter, h.mem_iff]

/-- The numbers that were given out count up from one. -/
theorem Reflects.numbers_eq (h : Reflects changes subscriptions) :
    (changes.filterMap Change.made?).map Subscription.id =
      List.range' 1 (changes.filterMap Change.made?).length := by
  have hlength := congrArg List.length h.numbers
  rw [List.length_map, List.length_range'] at hlength
  rw [h.numbers, hlength]

end Flotilla.Subscriptions
