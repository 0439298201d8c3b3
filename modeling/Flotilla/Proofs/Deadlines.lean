import Flotilla.Deadline
import Mathlib.Data.List.Nodup

/-!
# The two sides of the deadline queue

The order of a queue and its table of entries say the same thing: each key with an entry stands in
the order exactly once, under the deadline of its entry, and the order is sorted
(`DeadlineQueue.WellFormed`). Scheduling, calling off and firing keep this, and firing takes
exactly the entries that are due. The next deadline is the earliest of all.
-/

namespace Flotilla.DeadlineQueue

variable {α : Type}

private theorem before_iff {a b : Nat × CorrelationKey} :
    before a b = true ↔ a.1 < b.1 ∨ (a.1 = b.1 ∧ a.2 < b.2) := by
  simp only [before, Bool.or_eq_true, decide_eq_true_eq, Bool.and_eq_true]

private theorem before_trans {a b c : Nat × CorrelationKey} (h : before a b = true)
    (k : before b c = true) : before a c = true := by
  rw [before_iff] at h k ⊢
  rcases h with h | ⟨h, h'⟩ <;> rcases k with k | ⟨k, k'⟩
  · exact Or.inl (Nat.lt_trans h k)
  · exact Or.inl (k ▸ h)
  · exact Or.inl (h ▸ k)
  · exact Or.inr ⟨h.trans k, UInt64.lt_trans h' k'⟩

private theorem not_before_self (a : Nat × CorrelationKey) : before a a ≠ true := by
  rw [Ne, before_iff]
  rintro (h | ⟨-, h⟩)
  · exact Nat.lt_irrefl _ h
  · exact UInt64.lt_irrefl _ h

/-- Of two different places in the order, one is before the other. -/
theorem before_of_not_before {a b : Nat × CorrelationKey} (h : ¬before a b = true) (hne : a ≠ b) :
    before b a = true := by
  rw [before_iff] at h ⊢
  rcases Nat.lt_trichotomy a.1 b.1 with hlt | heq | hlt
  · exact absurd (Or.inl hlt) h
  · refine Or.inr ⟨heq.symm, ?_⟩
    rcases UInt64.lt_or_lt_of_ne (fun hk => hne (Prod.ext heq hk)) with hk | hk
    · exact absurd (Or.inr ⟨heq, hk⟩) h
    · exact hk
  · exact Or.inl hlt

/-- Inserting adds the one entry. -/
theorem mem_insert {a x : Nat × CorrelationKey} {l : List (Nat × CorrelationKey)} :
    x ∈ insert a l ↔ x = a ∨ x ∈ l := by
  induction l with
  | nil => simp [insert]
  | cons b rest ih =>
    rw [insert]
    split
    · exact List.mem_cons
    · split
      · next h =>
        subst h
        simp
      · rw [List.mem_cons, ih, List.mem_cons, or_left_comm]

/-- Inserting keeps the order. -/
theorem sorted_insert {a : Nat × CorrelationKey} {l : List (Nat × CorrelationKey)}
    (h : l.Pairwise fun x y => before x y = true) :
    (insert a l).Pairwise fun x y => before x y = true := by
  induction l with
  | nil => simp [insert]
  | cons b rest ih =>
    obtain ⟨hb, hrest⟩ := List.pairwise_cons.1 h
    rw [insert]
    split
    · next hab =>
      refine List.pairwise_cons.2 ⟨?_, h⟩
      intro x hx
      rcases List.mem_cons.1 hx with rfl | hx
      · exact hab
      · exact before_trans hab (hb x hx)
    · next hab =>
      split
      · exact h
      · next hne =>
        refine List.pairwise_cons.2 ⟨?_, ih hrest⟩
        intro x hx
        rcases mem_insert.1 hx with rfl | hx
        · exact before_of_not_before hab hne
        · exact hb x hx

/-- The deadline of a key. -/
def deadline? (q : DeadlineQueue α) (key : CorrelationKey) : Option Nat :=
  (q.entries.get? key).map Prod.fst

/-- A key has a deadline if its entry says so. -/
theorem deadline?_eq_some_iff {q : DeadlineQueue α} {key : CorrelationKey} {deadline : Nat} :
    q.deadline? key = some deadline ↔ ∃ tell, q.entries.get? key = some (deadline, tell) := by
  rw [deadline?, Option.map_eq_some_iff]
  constructor
  · rintro ⟨⟨d, tell⟩, he, rfl⟩
    exact ⟨tell, he⟩
  · rintro ⟨tell, he⟩
    exact ⟨_, he, rfl⟩

/-- Order and entries agree, and the order is sorted. -/
structure WellFormed (q : DeadlineQueue α) : Prop where
  /-- What stands in the order are the keys with their deadlines. -/
  mem_order_iff : ∀ deadline key, (deadline, key) ∈ q.order ↔ q.deadline? key = some deadline
  /-- Earlier deadlines stand in front, smaller keys first among equal ones. -/
  sorted : q.order.Pairwise fun a b => before a b = true

/-- The queue without deadlines is well-formed. -/
theorem wellFormed_empty : (empty : DeadlineQueue α).WellFormed where
  mem_order_iff deadline key := by simp [empty, deadline?]
  sorted := .nil

/-- No key stands in the order twice. -/
theorem WellFormed.nodup_keys {q : DeadlineQueue α} (h : q.WellFormed) :
    (q.order.map Prod.snd).Nodup := by
  refine List.Nodup.map_on ?_ (h.sorted.imp ?_)
  · rintro ⟨d, key⟩ hd ⟨e, key'⟩ he rfl
    rw [h.mem_order_iff] at hd he
    rw [Option.some.inj (hd.symm.trans he)]
  · rintro a b hab rfl
    exact not_before_self a hab

/-- The keys in the order are those that have an entry. -/
theorem WellFormed.perm_keys {q : DeadlineQueue α} (h : q.WellFormed) :
    (q.order.map Prod.snd).Perm q.entries.keys := by
  refine (List.perm_ext_iff_of_nodup h.nodup_keys q.entries.nodup).2 fun key => ?_
  change _ ↔ key ∈ q.entries.keys
  rw [Table.mem_keys_iff, Table.contains_eq_true_iff, List.mem_map]
  constructor
  · rintro ⟨⟨deadline, key⟩, hd, rfl⟩
    obtain ⟨e, he, -⟩ := Option.map_eq_some_iff.1 ((h.mem_order_iff deadline key).1 hd)
    exact ⟨e, he⟩
  · rintro ⟨e, he⟩
    refine ⟨(e.1, key), (h.mem_order_iff e.1 key).2 ?_, rfl⟩
    rw [deadline?, he, Option.map_some]

/-- A deadline can be scheduled for a key exactly when it has none. -/
theorem schedule_eq_ok {q : DeadlineQueue α} {key : CorrelationKey} (h : q.deadline? key = none)
    (deadline : Nat) (tell : α) : q.schedule key deadline tell =
      .ok ⟨insert (deadline, key) q.order, q.entries.set key (deadline, tell)⟩ := by
  have hc : q.entries.contains key = false := by
    rw [deadline?, Option.map_eq_none_iff] at h
    rw [Table.contains, h]
    rfl
  simp only [schedule, hc, Bool.false_eq_true, if_false]

/-- The deadlines after one has been scheduled. -/
theorem deadline?_schedule {q r : DeadlineQueue α} {key : CorrelationKey} {deadline : Nat}
    {tell : α} (h : q.schedule key deadline tell = .ok r) (x : CorrelationKey) :
    r.deadline? x = if key = x then some deadline else q.deadline? x := by
  unfold schedule at h
  split at h
  · cases h
  · cases h
    rw [deadline?, Table.get?_set]
    split <;> rfl

/-- Scheduling keeps a queue well-formed. -/
theorem WellFormed.schedule {q r : DeadlineQueue α} (h : q.WellFormed) {key : CorrelationKey}
    {deadline : Nat} {tell : α} (hs : q.schedule key deadline tell = .ok r) : r.WellFormed := by
  unfold DeadlineQueue.schedule at hs
  split at hs
  · cases hs
  · next hc =>
    cases hs
    have hnone : q.deadline? key = none := by
      simpa [deadline?, Table.contains] using hc
    refine ⟨?_, sorted_insert h.sorted⟩
    intro d k
    rw [mem_insert, h.mem_order_iff, deadline?, deadline?, Table.get?_set, Prod.mk.injEq]
    by_cases hk : key = k
    · subst hk
      rw [deadline?] at hnone
      simp [hnone, eq_comm]
    · simp [hk, Ne.symm hk]

/-- Calling a deadline off concerns its key alone. -/
theorem get?_cancel (q : DeadlineQueue α) (key x : CorrelationKey) :
    (q.cancel key).2.entries.get? x = if key = x then none else q.entries.get? x := by
  unfold cancel
  split
  · exact Table.get?_erase q.entries key x
  · next hnone =>
    split
    · next hx => rw [← hx, hnone]
    · rfl

/-- The deadlines after one has been called off. -/
theorem deadline?_cancel (q : DeadlineQueue α) (key x : CorrelationKey) :
    (q.cancel key).2.deadline? x = if key = x then none else q.deadline? x := by
  rw [deadline?, get?_cancel]
  split <;> rfl

/-- Calling a deadline off keeps a queue well-formed. -/
theorem WellFormed.cancel {q : DeadlineQueue α} (h : q.WellFormed) (key : CorrelationKey) :
    (q.cancel key).2.WellFormed := by
  refine ⟨?_, ?_⟩
  · intro d k
    rw [deadline?_cancel]
    unfold DeadlineQueue.cancel
    split
    · next deadline tell he =>
      have hkey : q.deadline? key = some deadline := by rw [deadline?, he]; rfl
      simp only [List.mem_filter, h.mem_order_iff, decide_eq_true_eq, ne_eq, Prod.mk.injEq]
      by_cases hk : key = k
      · subst hk
        simp [hkey, eq_comm]
      · simp [hk, Ne.symm hk]
    · next hn =>
      rw [h.mem_order_iff]
      by_cases hk : key = k
      · subst hk
        simp [deadline?, hn]
      · simp [hk]
  · unfold DeadlineQueue.cancel
    split
    · exact h.sorted.filter _
    · exact h.sorted

/-- Taking a place out of the order into which it has just been put. -/
theorem filter_insert_of_notMem {a : Nat × CorrelationKey} {l : List (Nat × CorrelationKey)}
    (h : a ∉ l) : (insert a l).filter (· ≠ a) = l := by
  induction l with
  | nil => simp [insert]
  | cons b rest ih =>
    have hkept : (b :: rest).filter (· ≠ a) = b :: rest :=
      List.filter_eq_self.2 fun _ hx => decide_eq_true fun hxa => h (hxa ▸ hx)
    obtain ⟨hb, hrest⟩ := List.ne_and_not_mem_of_not_mem_cons h
    rw [insert, if_neg hb]
    split
    · rw [List.filter_cons_of_neg (by simp), hkept]
    · rw [List.filter_cons_of_pos (by simpa using hb.symm), ih hrest]

/-- Calling off a deadline that has just been scheduled leaves the queue as it was before. -/
theorem WellFormed.cancel_of_schedule {q r : DeadlineQueue α} (h : q.WellFormed)
    {key : CorrelationKey} {deadline : Nat} {tell : α}
    (hs : q.schedule key deadline tell = .ok r) : r.cancel key = (true, q) := by
  unfold DeadlineQueue.schedule at hs
  split at hs
  · cases hs
  · next hfresh =>
    cases hs
    rw [Bool.not_eq_true, Table.contains_eq_false_iff] at hfresh
    have hplace : (deadline, key) ∉ q.order := by
      rw [h.mem_order_iff, deadline?, hfresh]
      exact nofun
    rw [DeadlineQueue.cancel, Table.get?_set_self]
    dsimp only
    rw [filter_insert_of_notMem hplace, Table.erase_set_of_fresh hfresh]

/-- What stands behind the front of a well-formed queue, with the entry of the front gone. -/
theorem WellFormed.tail {deadline : Nat} {key : CorrelationKey}
    {rest : List (Nat × CorrelationKey)} {entries : Table CorrelationKey (Nat × α)}
    (h : WellFormed ⟨(deadline, key) :: rest, entries⟩) :
    WellFormed ⟨rest, entries.erase key⟩ := by
  obtain ⟨hfront, hrest⟩ := List.pairwise_cons.1 h.sorted
  refine ⟨?_, hrest⟩
  intro d k
  have hk := h.mem_order_iff d k
  have hkey := (h.mem_order_iff deadline key).1 List.mem_cons_self
  simp only [deadline?, Table.get?_erase] at hk hkey ⊢
  by_cases he : key = k
  · subst he
    rw [if_pos rfl, Option.map_none]
    refine ⟨fun hm => ?_, fun hn => by cases hn⟩
    have hd : deadline = d := by
      have := hk.1 (List.mem_cons_of_mem _ hm)
      rw [hkey] at this
      exact Option.some.inj this
    subst hd
    exact absurd (hfront _ hm) (not_before_self _)
  · rw [if_neg he, ← hk, List.mem_cons]
    refine ⟨Or.inr, fun hm => hm.resolve_left fun e => he (congrArg Prod.snd e).symm⟩

/-- What firing does: it tells the entries that are due, and leaves the others. -/
structure Fires (now : Nat) (q : DeadlineQueue α) (fired : List (CorrelationKey × α))
    (r : DeadlineQueue α) : Prop where
  /-- What is left is well formed. -/
  wellFormed : r.WellFormed
  /-- What fired are the entries whose deadlines have come. -/
  mem_fired_iff : ∀ key tell, (key, tell) ∈ fired ↔
    ∃ deadline, q.entries.get? key = some (deadline, tell) ∧ deadline ≤ now
  /-- Each of them fired once. -/
  nodup : (fired.map Prod.fst).Nodup
  /-- What is left are the entries whose deadlines have not come. -/
  get?_left : ∀ key, r.entries.get? key =
    (q.entries.get? key).filter fun e => decide (now < e.1)

/-- Walking down the order fires the entries that are due. -/
theorem fires_takeDue (now : Nat) (order : List (Nat × CorrelationKey))
    (entries : Table CorrelationKey (Nat × α)) (h : WellFormed ⟨order, entries⟩) :
    Fires now ⟨order, entries⟩ (takeDue now order entries).1 (takeDue now order entries).2 := by
  induction order generalizing entries with
  | nil =>
    have hnone (key : CorrelationKey) : entries.get? key = none := by
      cases he : entries.get? key with
      | none => rfl
      | some e =>
        have := (h.mem_order_iff e.1 key).2 (by rw [deadline?, he]; rfl)
        cases this
    exact ⟨h, by simp [takeDue, hnone], by simp [takeDue], by simp [takeDue, hnone]⟩
  | cons front rest ih =>
    obtain ⟨deadline, key⟩ := front
    have hkey := (h.mem_order_iff deadline key).1 List.mem_cons_self
    obtain ⟨⟨d, tell⟩, he, hd⟩ := Option.map_eq_some_iff.1 hkey
    dsimp only at he hd
    subst hd
    by_cases hnow : now < d
    · -- the order is sorted, so nothing behind the front is due either
      have hall (x : CorrelationKey) (e : Nat × α) (hx : entries.get? x = some e) : now < e.1 := by
        have hm := (h.mem_order_iff e.1 x).2 (by rw [deadline?, hx]; rfl)
        rcases List.mem_cons.1 hm with heq | hm
        · cases heq
          exact hnow
        · have hb := before_iff.1 ((List.pairwise_cons.1 h.sorted).1 _ hm)
          dsimp only at hb
          omega
      rw [takeDue, if_pos hnow]
      refine ⟨h, ?_, List.nodup_nil, ?_⟩
      · intro x t
        refine ⟨nofun, ?_⟩
        rintro ⟨e, hx, hle⟩
        exact absurd (hall x _ hx) (Nat.not_lt.2 hle)
      · intro x
        cases hx : entries.get? x with
        | none => rfl
        | some e => rw [Option.filter_some, if_pos (decide_eq_true (hall x e hx))]
    · have hrest := ih (entries.erase key) h.tail
      rw [takeDue, if_neg hnow, he]
      dsimp only
      refine ⟨hrest.wellFormed, ?_, ?_, ?_⟩
      · intro x t
        rw [List.mem_cons, hrest.mem_fired_iff, Prod.mk.injEq, Table.get?_erase]
        by_cases hx : key = x
        · subst hx
          simp only [he, true_and, if_true, reduceCtorEq, false_and, exists_false, or_false,
            Option.some.injEq, Prod.mk.injEq]
          exact ⟨fun ht => ⟨d, ⟨rfl, ht.symm⟩, Nat.not_lt.1 hnow⟩, fun ⟨_, ht, _⟩ => ht.2.symm⟩
        · simp only [Ne.symm hx, false_and, false_or, hx, if_false]
      · rw [List.map_cons, List.nodup_cons]
        refine ⟨?_, hrest.nodup⟩
        intro hm
        obtain ⟨⟨x, t⟩, hm, hx⟩ := List.mem_map.1 hm
        dsimp only at hx
        subst hx
        obtain ⟨e, hx, -⟩ := (hrest.mem_fired_iff x t).1 hm
        rw [Table.get?_erase, if_pos rfl] at hx
        cases hx
      · intro x
        rw [hrest.get?_left, Table.get?_erase]
        by_cases hx : key = x
        · subst hx
          rw [if_pos rfl, he, Option.filter_some, if_neg (by simpa using hnow), Option.filter_none]
        · rw [if_neg hx]

/-- Firing takes exactly the entries that are due. -/
theorem WellFormed.fires {q : DeadlineQueue α} (h : q.WellFormed) (now : Nat) :
    Fires now q (q.fire now).1 (q.fire now).2 :=
  fires_takeDue now q.order q.entries h

/-- The keys that fire are those whose deadlines have come. -/
theorem Fires.mem_keys_iff {now : Nat} {q r : DeadlineQueue α} {fired : List (CorrelationKey × α)}
    (h : Fires now q fired r) (key : CorrelationKey) :
    key ∈ fired.map Prod.fst ↔ ∃ deadline, q.deadline? key = some deadline ∧ deadline ≤ now := by
  constructor
  · intro hm
    obtain ⟨⟨k, tell⟩, hfired, rfl⟩ := List.mem_map.1 hm
    obtain ⟨deadline, he, hle⟩ := (h.mem_fired_iff k tell).1 hfired
    exact ⟨deadline, deadline?_eq_some_iff.2 ⟨tell, he⟩, hle⟩
  · rintro ⟨deadline, hd, hle⟩
    obtain ⟨tell, he⟩ := deadline?_eq_some_iff.1 hd
    exact List.mem_map_of_mem (f := Prod.fst) ((h.mem_fired_iff key tell).2 ⟨deadline, he, hle⟩)

/-- The deadlines that are left after firing are those that have not come. -/
theorem Fires.deadline?_left {now : Nat} {q r : DeadlineQueue α} {fired : List (CorrelationKey × α)}
    (h : Fires now q fired r) (key : CorrelationKey) :
    r.deadline? key = (q.deadline? key).filter fun deadline => decide (now < deadline) := by
  rw [deadline?, deadline?, h.get?_left]
  cases q.entries.get? key with
  | none => rfl
  | some e =>
    rw [Option.map_some, Option.filter_some, Option.filter_some]
    split <;> rfl

section Next

variable {q : DeadlineQueue α}

/-- The next deadline is that of some key, and no key has an earlier one. -/
theorem WellFormed.next?_eq_some (h : q.WellFormed) {first : Nat} (hnext : q.next? = some first) :
    (∃ key, q.deadline? key = some first) ∧
      ∀ key deadline, q.deadline? key = some deadline → first ≤ deadline := by
  obtain ⟨front, hfront, rfl⟩ := Option.map_eq_some_iff.1 hnext
  obtain ⟨rest, hrest⟩ := List.head?_eq_some_iff.1 hfront
  refine ⟨⟨front.2, (h.mem_order_iff _ _).1 (hrest ▸ List.mem_cons_self)⟩, ?_⟩
  intro key deadline hkey
  have hmem := (h.mem_order_iff deadline key).2 hkey
  rw [hrest] at hmem
  rcases List.mem_cons.1 hmem with rfl | hmem
  · exact Nat.le_refl _
  · have hsorted := h.sorted
    rw [hrest] at hsorted
    rcases before_iff.1 ((List.pairwise_cons.1 hsorted).1 _ hmem) with hlt | ⟨heq, -⟩
    · exact Nat.le_of_lt hlt
    · exact Nat.le_of_eq heq

/-- There is no next deadline exactly when the queue is empty. -/
theorem WellFormed.next?_eq_none_iff (h : q.WellFormed) :
    q.next? = none ↔ q.isEmpty = true := by
  have hlength := h.perm_keys.length_eq
  rw [List.length_map, Table.keys, List.length_map] at hlength
  rw [next?, Option.map_eq_none_iff, List.head?_eq_none_iff, isEmpty, Table.isEmpty,
    List.isEmpty_iff, ← List.length_eq_zero_iff, hlength, List.length_eq_zero_iff]

/-- There is no next deadline exactly when no key has one. -/
theorem WellFormed.next?_eq_none_iff_forall (h : q.WellFormed) :
    q.next? = none ↔ ∀ key, q.deadline? key = none := by
  constructor
  · intro hnone key
    rw [next?, Option.map_eq_none_iff, List.head?_eq_none_iff] at hnone
    refine Option.eq_none_iff_forall_ne_some.2 fun deadline hkey => ?_
    have hmem := (h.mem_order_iff deadline key).2 hkey
    rw [hnone] at hmem
    cases hmem
  · intro hnone
    refine Option.eq_none_iff_forall_ne_some.2 fun first hnext => ?_
    obtain ⟨key, hkey⟩ := (h.next?_eq_some hnext).1
    cases (hnone key).symm.trans hkey

/-- What is next after firing is still to come. -/
theorem lt_next?_takeDue (now : Nat) (order : List (Nat × CorrelationKey))
    (entries : Table CorrelationKey (Nat × α)) {first : Nat}
    (h : (takeDue now order entries).2.next? = some first) : now < first := by
  induction order generalizing entries with
  | nil => cases h
  | cons front rest ih =>
    rw [takeDue] at h
    split at h
    · next hlt =>
      cases h
      exact hlt
    · split at h
      · exact ih _ h
      · exact ih _ h

/-- After firing, what is due next is due later than now. -/
theorem lt_next?_fire (q : DeadlineQueue α) (now : Nat) {first : Nat}
    (h : (q.fire now).2.next? = some first) : now < first :=
  lt_next?_takeDue now q.order q.entries h

/-- Nothing fires before the next deadline. -/
theorem fire_of_lt {now : Nat} (h : ∀ first, q.next? = some first → now < first) :
    q.fire now = ([], q) := by
  obtain ⟨order, entries⟩ := q
  cases order with
  | nil => rfl
  | cons front rest => exact if_pos (h front.1 rfl)

end Next

end Flotilla.DeadlineQueue
