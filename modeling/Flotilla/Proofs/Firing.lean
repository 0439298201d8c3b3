import Flotilla.Proofs.Deadlines
import Mathlib.Order.Bounds.Basic

/-!
# What becomes of a deadline

Deadlines are put in, called off and fired in any order. To a single key this looks simple: it has a
deadline or it has none, and each operation says which comes next (`Op.keeps`) and what is told
(`Op.tells`). A queue does just that for all keys at once (`get?_perform`, `told_perform`), and its
two sides stay in step meanwhile. So the past of a key counts for nothing once it has no deadline:
one that has been called off is never told, and one that comes later is told as if it were the first
(`DeadlineQueue.afresh_of_free`).
-/

namespace Flotilla.DeadlineQueue

variable {α : Type}

/-- Something that is done to a queue. -/
inductive Op (α : Type) where
  /-- Put a deadline in. -/
  | schedule (key : CorrelationKey) (deadline : Nat) (tell : α)
  /-- Call a deadline off. -/
  | cancel (key : CorrelationKey)
  /-- Fire what is due. -/
  | fire (now : Nat)
  deriving DecidableEq, Repr

/-- What fires by an operation, and the queue afterwards. One that is refused changes nothing. -/
def perform (q : DeadlineQueue α) : Op α → List (CorrelationKey × α) × DeadlineQueue α
  | .schedule key deadline tell =>
    match q.schedule key deadline tell with
    | .ok r => ([], r)
    | .error _ => ([], q)
  | .cancel key => ([], (q.cancel key).2)
  | .fire now => q.fire now

/-- The queue after operations on an empty one. -/
def after (ops : List (Op α)) : DeadlineQueue α := ops.foldl (fun q op => (q.perform op).2) empty

/-- Everything that fires by operations, in order. -/
def firedBy (q : DeadlineQueue α) : List (Op α) → List (CorrelationKey × α)
  | [] => []
  | op :: ops => (q.perform op).1 ++ (q.perform op).2.firedBy ops

/-- What is told under a key among all that fires. -/
def toldTo (key : CorrelationKey) (fired : List (CorrelationKey × α)) : List α :=
  (fired.filter (·.1 = key)).map Prod.snd

/-- What a key has after an operation, if this is what it had before: its deadline and what is to be
told. -/
def Op.keeps (key : CorrelationKey) (held : Option (Nat × α)) : Op α → Option (Nat × α)
  | .schedule k deadline tell => if k = key then held.or (some (deadline, tell)) else held
  | .cancel k => if k = key then none else held
  | .fire now => held.filter fun e => now < e.1

/-- What is told by an operation under a key that has this. -/
def Op.tells (held : Option (Nat × α)) : Op α → Option α
  | .schedule .. | .cancel _ => none
  | .fire now => (held.filter fun e => e.1 ≤ now).map Prod.snd

/-- Whether an operation ends a deadline of a key. -/
def Op.Ends (key : CorrelationKey) (deadline : Nat) : Op α → Prop
  | .schedule .. => False
  | .cancel k => k = key
  | .fire now => deadline ≤ now

/-- What a key has after operations that find it without a deadline. -/
def held (key : CorrelationKey) (ops : List (Op α)) : Option (Nat × α) :=
  ops.foldl (Op.keeps key) none

/-- What operations tell under a key that has this before them. -/
def tellings (key : CorrelationKey) : Option (Nat × α) → List (Op α) → List α
  | _, [] => []
  | held, op :: ops => (op.tells held).toList ++ tellings key (op.keeps key held) ops

/-- The order has each entry once, and nothing else. -/
structure InStep (q : DeadlineQueue α) : Prop where
  perm : q.order.Perm (q.entries.entries.map fun e => (e.2.1, e.1))
  sorted : q.order.Pairwise fun a b => before a b = true

/-- Firing tells what is due, in order, and leaves the rest. -/
structure FiresDue (q : DeadlineQueue α) (now : Nat) : Prop where
  /-- What fires are the due entries, in the order of their deadlines, keys breaking ties. -/
  inOrder : ∃ due : List ((Nat × CorrelationKey) × α),
    (due.Pairwise fun a b => before a.1 b.1 = true) ∧
      (∀ deadline key tell, ((deadline, key), tell) ∈ due ↔
        q.entries.get? key = some (deadline, tell) ∧ deadline ≤ now) ∧
      (q.fire now).1 = due.map fun e => (e.1.2, e.2)
  /-- There are as many as entries that are due. -/
  length : (q.fire now).1.length = q.entries.entries.countP fun e => e.2.1 ≤ now
  /-- The others keep their entries. -/
  left : ∀ key, (q.fire now).2.entries.get? key = (q.entries.get? key).filter fun e => now < e.1
  /-- The next deadline is the earliest of theirs. -/
  next : ∀ first, (q.fire now).2.next? = some first ↔
    IsLeast {deadline | ∃ key tell,
      q.entries.get? key = some (deadline, tell) ∧ now < deadline} first

variable {q : DeadlineQueue α} {key : CorrelationKey}

private theorem WellFormed.inStep (h : q.WellFormed) : q.InStep := by
  have hkeys : (q.entries.entries.map Prod.fst).Nodup := q.entries.nodup
  refine ⟨(List.perm_ext_iff_of_nodup ?_ ?_).2 ?_, h.sorted⟩
  · exact List.Nodup.of_map Prod.snd h.nodup_keys
  · refine List.Nodup.of_map Prod.snd ?_
    rwa [List.map_map]
  · rintro ⟨deadline, key⟩
    rw [h.mem_order_iff, deadline?, Option.map_eq_some_iff, List.mem_map]
    constructor
    · rintro ⟨e, he, rfl⟩
      exact ⟨(key, e), (Table.get?_eq_some_iff _ _ _).1 he, rfl⟩
    · rintro ⟨⟨k, e⟩, hmem, heq⟩
      cases heq
      exact ⟨e, (Table.get?_eq_some_iff _ _ _).2 hmem, rfl⟩

/-- Calling off tells whether the key was scheduled. -/
theorem cancel_fst (q : DeadlineQueue α) (key : CorrelationKey) :
    (q.cancel key).1 = (q.entries.get? key).isSome := by
  unfold cancel
  split <;> next h => rw [h]; rfl

/-- A key that is scheduled cannot be scheduled again. -/
theorem schedule_of_some {held : Nat × α} (h : q.entries.get? key = some held) (deadline : Nat)
    (tell : α) : q.schedule key deadline tell = .error (.invariant
      ("deadline already scheduled for request " ++ Text.decimal key.toNat)) :=
  if_pos ((Table.contains_eq_true_iff _ _).2 ⟨held, h⟩)

/-- Every operation keeps a queue well-formed. -/
theorem WellFormed.perform (h : q.WellFormed) (op : Op α) : (q.perform op).2.WellFormed := by
  cases op with
  | schedule key deadline tell =>
    dsimp only [DeadlineQueue.perform]
    split
    · next hok => exact h.schedule hok
    · exact h
  | cancel key => exact h.cancel key
  | fire now => exact (h.fires now).wellFormed

/-- An operation on a queue is one for each of its keys. -/
theorem get?_perform (h : q.WellFormed) (op : Op α) (key : CorrelationKey) :
    (q.perform op).2.entries.get? key = op.keeps key (q.entries.get? key) := by
  cases op with
  | schedule k deadline tell =>
    rw [perform, Op.keeps]
    cases hk : q.entries.get? k with
    | some e =>
      rw [schedule_of_some hk]
      by_cases hkey : k = key
      · subst hkey
        rw [if_pos rfl, hk, Option.some_or]
      · rw [if_neg hkey]
    | none =>
      rw [schedule_eq_ok (Option.map_eq_none_iff.2 hk)]
      change (q.entries.set k (deadline, tell)).get? key = _
      rw [Table.get?_set]
      by_cases hkey : k = key
      · subst hkey
        rw [if_pos rfl, if_pos rfl, hk, Option.none_or]
      · rw [if_neg hkey, if_neg hkey]
  | cancel k => exact get?_cancel q k key
  | fire now => exact (h.fires now).get?_left key

/-- Of a list with each key once, what is told under a key is what is found there. -/
theorem toldTo_of_nodup {fired : List (CorrelationKey × α)} (h : (fired.map Prod.fst).Nodup)
    (key : CorrelationKey) : toldTo key fired = (Table.lookup key fired).toList := by
  induction fired with
  | nil => rfl
  | cons e rest ih =>
    rw [List.map_cons, List.nodup_cons] at h
    by_cases hkey : e.1 = key
    · have hrest : rest.filter (·.1 = key) = [] := by
        refine List.filter_eq_nil_iff.2 fun x hx hxkey => h.1 ?_
        rw [hkey, ← of_decide_eq_true hxkey]
        exact List.mem_map_of_mem hx
      rw [toldTo, List.filter_cons_of_pos (by simpa using hkey), hrest, Table.lookup, if_pos hkey]
      rfl
    · rw [Table.lookup, if_neg hkey, ← ih h.2, toldTo,
        List.filter_cons_of_neg (by simpa using hkey), toldTo]

/-- What an operation tells under a key depends on the entry of that key alone. -/
theorem told_perform (h : q.WellFormed) (op : Op α) (key : CorrelationKey) :
    toldTo key (q.perform op).1 = (op.tells (q.entries.get? key)).toList := by
  cases op with
  | schedule k deadline tell =>
    rw [perform]
    split <;> rfl
  | cancel k => rfl
  | fire now =>
    have hfires := h.fires now
    rw [perform, toldTo_of_nodup hfires.nodup, Op.tells]
    congr 1
    refine Option.ext fun tell => ?_
    rw [Table.lookup_eq_some_iff hfires.nodup, hfires.mem_fired_iff, Option.map_eq_some_iff]
    constructor
    · rintro ⟨deadline, he, hle⟩
      exact ⟨(deadline, tell), Option.filter_eq_some_iff.2 ⟨he, decide_eq_true hle⟩, rfl⟩
    · rintro ⟨⟨deadline, t⟩, he, rfl⟩
      obtain ⟨he, hle⟩ := Option.filter_eq_some_iff.1 he
      exact ⟨deadline, he, of_decide_eq_true hle⟩

private theorem takeDue_inOrder (now : Nat) (order : List (Nat × CorrelationKey))
    (entries : Table CorrelationKey (Nat × α)) :
    ∃ due : List ((Nat × CorrelationKey) × α), (due.map Prod.fst).Sublist order ∧
      (takeDue now order entries).1 = due.map fun e => (e.1.2, e.2) := by
  induction order generalizing entries with
  | nil => exact ⟨[], List.Sublist.refl [], rfl⟩
  | cons front rest ih =>
    obtain ⟨deadline, key⟩ := front
    rw [takeDue]
    split
    · exact ⟨[], List.nil_sublist _, rfl⟩
    · split
      · next d tell _ =>
        obtain ⟨due, hsub, heq⟩ := ih (entries.erase key)
        exact ⟨((deadline, key), tell) :: due, hsub.cons_cons (deadline, key),
          congrArg ((key, tell) :: ·) heq⟩
      · obtain ⟨due, hsub, heq⟩ := ih entries
        exact ⟨due, hsub.cons (deadline, key), heq⟩

/-- The next deadline is the earliest of those in the queue. -/
theorem WellFormed.next?_eq_some_iff (h : q.WellFormed) {first : Nat} :
    q.next? = some first ↔ IsLeast {deadline | ∃ key, q.deadline? key = some deadline} first := by
  constructor
  · intro hnext
    obtain ⟨hfirst, hleast⟩ := h.next?_eq_some hnext
    exact ⟨hfirst, fun deadline ⟨key, hkey⟩ => hleast key deadline hkey⟩
  · rintro ⟨⟨key, hkey⟩, hleast⟩
    cases hnext : q.next? with
    | none => cases (h.next?_eq_none_iff_forall.1 hnext key).symm.trans hkey
    | some deadline =>
      obtain ⟨hmem, hle⟩ := h.next?_eq_some hnext
      rw [Nat.le_antisymm (hle key first hkey) (hleast hmem)]

/-- What fires are the due entries, in their order. -/
theorem WellFormed.fire_inOrder (h : q.WellFormed) (now : Nat) :
    ∃ due : List ((Nat × CorrelationKey) × α), (due.Pairwise fun a b => before a.1 b.1 = true) ∧
      (∀ deadline key tell, ((deadline, key), tell) ∈ due ↔
        q.entries.get? key = some (deadline, tell) ∧ deadline ≤ now) ∧
      (q.fire now).1 = due.map fun e => (e.1.2, e.2) := by
  have hfires := h.fires now
  obtain ⟨due, hsub, heq⟩ := takeDue_inOrder now q.order q.entries
  change (q.fire now).1 = _ at heq
  -- a place in the order is that of the entry of its key
  have hplace {deadline : Nat} {key : CorrelationKey} {tell : α}
      (hmem : ((deadline, key), tell) ∈ due) :
      ∃ held, q.entries.get? key = some (deadline, held) :=
    deadline?_eq_some_iff.1 ((h.mem_order_iff deadline key).1
      (hsub.subset (List.mem_map_of_mem (f := Prod.fst) hmem)))
  refine ⟨due, List.pairwise_map.1 (h.sorted.sublist hsub), ?_, heq⟩
  intro deadline key tell
  constructor
  · intro hmem
    have hfired : (key, tell) ∈ (q.fire now).1 := heq ▸ List.mem_map.2 ⟨_, hmem, rfl⟩
    obtain ⟨d, he, hle⟩ := (hfires.mem_fired_iff key tell).1 hfired
    obtain ⟨held, hheld⟩ := hplace hmem
    cases he.symm.trans hheld
    exact ⟨he, hle⟩
  · rintro ⟨he, hle⟩
    have hfired := (hfires.mem_fired_iff key tell).2 ⟨deadline, he, hle⟩
    rw [heq] at hfired
    obtain ⟨⟨⟨d, k⟩, t⟩, hmem, hsame⟩ := List.mem_map.1 hfired
    cases hsame
    obtain ⟨held, hheld⟩ := hplace hmem
    cases he.symm.trans hheld
    exact hmem

/-- As many fire as are due. -/
theorem WellFormed.length_fire (h : q.WellFormed) (now : Nat) :
    (q.fire now).1.length = q.entries.entries.countP fun e => e.2.1 ≤ now := by
  have hfires := h.fires now
  rw [List.countP_eq_length_filter,
    ← List.length_map fun e : CorrelationKey × Nat × α => (e.1, e.2.2)]
  refine ((List.perm_ext_iff_of_nodup ?_ ?_).2 ?_).length_eq
  · exact List.Nodup.of_map Prod.fst hfires.nodup
  · refine List.Nodup.of_map Prod.fst ?_
    rw [List.map_map]
    exact Table.nodup_filter _ q.entries.nodup
  · rintro ⟨key, tell⟩
    rw [hfires.mem_fired_iff, List.mem_map]
    constructor
    · rintro ⟨deadline, he, hle⟩
      exact ⟨(key, deadline, tell), List.mem_filter.2
        ⟨(Table.get?_eq_some_iff _ _ _).1 he, decide_eq_true hle⟩, rfl⟩
    · rintro ⟨⟨k, deadline, t⟩, hmem, heq⟩
      cases heq
      obtain ⟨hmem, hle⟩ := List.mem_filter.1 hmem
      exact ⟨deadline, (Table.get?_eq_some_iff _ _ _).2 hmem, of_decide_eq_true hle⟩

private theorem WellFormed.firesDue (h : q.WellFormed) (now : Nat) : q.FiresDue now := by
  have hfires := h.fires now
  refine ⟨h.fire_inOrder now, h.length_fire now, hfires.get?_left, fun first => ?_⟩
  rw [hfires.wellFormed.next?_eq_some_iff]
  refine iff_of_eq (congrArg (IsLeast · first) (Set.ext fun deadline => exists_congr fun key => ?_))
  rw [deadline?_eq_some_iff]
  refine exists_congr fun tell => ?_
  rw [hfires.get?_left, Option.filter_eq_some_iff, decide_eq_true_eq]

/-- Every queue that operations lead to is well-formed. -/
theorem wellFormed_after (ops : List (Op α)) : (after ops).WellFormed :=
  List.foldlRecOn ops _ wellFormed_empty fun _ h op _ => h.perform op

private theorem get?_foldl (h : q.WellFormed) (ops : List (Op α)) (key : CorrelationKey) :
    (ops.foldl (fun q op => (q.perform op).2) q).entries.get? key =
      ops.foldl (Op.keeps key) (q.entries.get? key) := by
  induction ops generalizing q with
  | nil => rfl
  | cons op ops ih => rw [List.foldl_cons, List.foldl_cons, ih (h.perform op), get?_perform h]

/-- Each key has in the queue what it has by itself. -/
theorem get?_after (ops : List (Op α)) (key : CorrelationKey) :
    (after ops).entries.get? key = held key ops :=
  get?_foldl wellFormed_empty ops key

private theorem toldTo_append (key : CorrelationKey) (l m : List (CorrelationKey × α)) :
    toldTo key (l ++ m) = toldTo key l ++ toldTo key m := by
  rw [toldTo, List.filter_append, List.map_append]
  rfl

/-- A row of operations tells under a key what its entry and the operations on it say. -/
theorem told_firedBy (h : q.WellFormed) (ops : List (Op α)) (key : CorrelationKey) :
    toldTo key (q.firedBy ops) = tellings key (q.entries.get? key) ops := by
  induction ops generalizing q with
  | nil => rfl
  | cons op ops ih =>
    rw [firedBy, toldTo_append, told_perform h, ih (h.perform op), get?_perform h, tellings]

/-- What is told under a key by a longer row: first what the front tells, then the rest from where
the front has left the key. -/
theorem tellings_append (key : CorrelationKey) (had : Option (Nat × α)) (ops more : List (Op α)) :
    tellings key had (ops ++ more) =
      tellings key had ops ++ tellings key (ops.foldl (Op.keeps key) had) more := by
  induction ops generalizing had with
  | nil => rfl
  | cons op ops ih => rw [List.cons_append, tellings, ih, tellings, List.append_assoc]; rfl

/-- As long as nothing ends a deadline, its key keeps it and is told nothing. -/
theorem keeps_of_not_ends {deadline : Nat} {ops : List (Op α)}
    (h : ∀ op ∈ ops, ¬op.Ends key deadline) (tell : α) :
    ops.foldl (Op.keeps key) (some (deadline, tell)) = some (deadline, tell) ∧
      tellings key (some (deadline, tell)) ops = [] := by
  induction ops with
  | nil => exact ⟨rfl, rfl⟩
  | cons op ops ih =>
    have hop := h op List.mem_cons_self
    have hkeeps : op.keeps key (some (deadline, tell)) = some (deadline, tell) := by
      cases op with
      | schedule k d t => exact ite_self _
      | cancel k => exact if_neg hop
      | fire now => exact if_pos (decide_eq_true (Nat.lt_of_not_le hop))
    have htells : op.tells (some (deadline, tell)) = none := by
      cases op with
      | schedule k d t => rfl
      | cancel k => rfl
      | fire now =>
        rw [Op.tells, Option.filter_some, if_neg (by simpa using Nat.lt_of_not_le hop),
          Option.map_none]
    obtain ⟨hfoldl, htellings⟩ := ih fun o ho => h o (List.mem_cons_of_mem op ho)
    rw [List.foldl_cons, tellings, hkeeps, htells, htellings]
    exact ⟨hfoldl, rfl⟩

/-- A key without a deadline starts afresh, whatever was done before. -/
theorem tellings_afresh {ops : List (Op α)} (hfree : held key ops = none) (more : List (Op α)) :
    held key (ops ++ more) = held key more ∧
      tellings key none (ops ++ more) = tellings key none ops ++ tellings key none more := by
  rw [held] at hfree
  rw [held, List.foldl_append, tellings_append, hfree]
  exact ⟨rfl, rfl⟩

private theorem Op.Ends.keeps_eq_none {deadline : Nat} {op : Op α} (h : op.Ends key deadline)
    (tell : α) :
    op.keeps key (some (deadline, tell)) = none := by
  cases op with
  | schedule => exact h.elim
  | cancel k => exact if_pos h
  | fire now => exact if_neg (by simpa using not_lt.2 (show deadline ≤ now from h))

/-- A deadline of a key without one ends with the first operation that ends it, and so is told once
or never. -/
theorem tellings_ended {ops meanwhile : List (Op α)} {deadline : Nat} (hfree : held key ops = none)
    (hmeanwhile : ∀ o ∈ meanwhile, ¬o.Ends key deadline) (op : Op α) (hends : op.Ends key deadline)
    (tell : α) (more : List (Op α)) :
    tellings key none (ops ++ .schedule key deadline tell :: (meanwhile ++ op :: more)) =
      tellings key none ops ++ ((op.tells (some (deadline, tell))).toList ++
        tellings key none more) := by
  obtain ⟨hkeeps, htellings⟩ := keeps_of_not_ends hmeanwhile tell
  have hput : (Op.schedule key deadline tell).keeps key none = some (deadline, tell) := if_pos rfl
  rw [(tellings_afresh hfree _).2, tellings, hput, tellings_append, htellings, hkeeps, tellings,
    hends.keeps_eq_none tell]
  rfl

/-- What operations on an empty queue tell under a key. -/
def told (key : CorrelationKey) (ops : List (Op α)) : List α := toldTo key (empty.firedBy ops)

private theorem told_eq (key : CorrelationKey) (ops : List (Op α)) :
    told key ops = tellings key none ops :=
  told_firedBy wellFormed_empty ops key

/-- What becomes of deadlines of a key that has none. -/
structure Afresh (key : CorrelationKey) (ops : List (Op α)) : Prop where
  /-- What has been counts for nothing. -/
  held_append : ∀ more, held key (ops ++ more) = held key more
  told_append : ∀ more, told key (ops ++ more) = told key ops ++ told key more
  /-- A deadline that is called off before it fires is never told. -/
  cancelled : ∀ deadline tell meanwhile more, (∀ op ∈ meanwhile, ¬op.Ends key deadline) →
    told key (ops ++ .schedule key deadline tell :: (meanwhile ++ .cancel key :: more)) =
      told key ops ++ told key more
  /-- A deadline that fires first is told once. -/
  fired : ∀ deadline tell meanwhile now more, (∀ op ∈ meanwhile, ¬op.Ends key deadline) →
    deadline ≤ now →
      told key (ops ++ .schedule key deadline tell :: (meanwhile ++ .fire now :: more)) =
        told key ops ++ tell :: told key more

private theorem afresh_of_free {ops : List (Op α)} (hfree : held key ops = none) :
    Afresh key ops where
  held_append more := (tellings_afresh hfree more).1
  told_append more := by
    simp only [told_eq]
    exact (tellings_afresh hfree more).2
  cancelled deadline tell meanwhile more hmeanwhile := by
    simp only [told_eq]
    exact tellings_ended hfree hmeanwhile (.cancel key) rfl tell more
  fired deadline tell meanwhile now more hmeanwhile hdue := by
    have hfires : (Op.fire now).tells (some (deadline, tell)) = some tell := by
      rw [Op.tells, Option.filter_some, if_pos (decide_eq_true hdue), Option.map_some]
    have htold := tellings_ended hfree hmeanwhile (.fire now) hdue tell more
    rw [hfires] at htold
    simp only [told_eq]
    exact htold

/-- After any row of operations the order has each entry once and nothing else, and each key has
what it has by itself. Firing then tells exactly what is due, in order, and leaves the rest; a
deadline is called off exactly if there is one; one can be put in exactly if there is none, and else
nothing changes. A key without a deadline starts afresh: one that is called off before it fires is
never told, and one that fires is told once. -/
theorem fires_run (ops : List (Op α)) :
    let q := after ops
    q.InStep ∧ (∀ key, q.entries.get? key = held key ops) ∧ (∀ now, q.FiresDue now) ∧
      (∀ key, (q.cancel key).1 = (held key ops).isSome) ∧
      (∀ key deadline tell,
        ((held key ops).isSome = true →
          q.schedule key deadline tell = .error (.invariant
            ("deadline already scheduled for request " ++ Text.decimal key.toNat)) ∧
          after (ops ++ [.schedule key deadline tell]) = q) ∧
        (held key ops = none →
          q.schedule key deadline tell = .ok (after (ops ++ [.schedule key deadline tell])))) ∧
      ∀ key, held key ops = none → Afresh key ops := by
  intro q
  have h : q.WellFormed := wellFormed_after ops
  have hget : ∀ key, q.entries.get? key = held key ops := get?_after ops
  have hnext (op : Op α) : after (ops ++ [op]) = (q.perform op).2 := List.foldl_concat _ _ _ _
  refine ⟨h.inStep, hget, h.firesDue, fun key => ?_, fun key deadline tell => ⟨?_, ?_⟩,
    fun key => afresh_of_free⟩
  · rw [cancel_fst, hget]
  · intro hheld
    obtain ⟨e, he⟩ := Option.isSome_iff_exists.1 hheld
    have hrefused := schedule_of_some ((hget key).trans he) deadline tell
    refine ⟨hrefused, ?_⟩
    rw [hnext, perform, hrefused]
  · intro hfree
    have hput := schedule_eq_ok (Option.map_eq_none_iff.2 ((hget key).trans hfree)) deadline tell
    rw [hnext, perform, hput]

/-- A key gets a deadline, loses it, gets an earlier one and another one in vain, while the same
time is the deadline of another key. -/
def reused : List (Op String) :=
  [.schedule 7 50 "late", .schedule 3 20 "other", .cancel 7, .schedule 7 20 "early",
    .schedule 7 10 "refused"]

/-- A key is called off, scheduled again and fired, and another one with it. -/
theorem fires_run_reused :
    (after reused).InStep ∧ (after reused).order = [(20, 3), (20, 7)] ∧
      ((after reused).fire 20).1 = [(3, "other"), (7, "early")] ∧
      ((after reused).cancel 7).1 = true ∧
      (after reused).schedule 7 60 "again" =
        .error (.invariant "deadline already scheduled for request 7") ∧
      told 7 (reused ++ [.fire 20, .fire 50]) = ["early"] := by
  obtain ⟨hinStep, -, -, hcancel, hschedule, -⟩ := fires_run reused
  obtain ⟨-, -, -, -, -, hafresh⟩ := fires_run (reused.take 3)
  have hheld : held 7 reused = some (20, "early") := by decide
  have htold := (hafresh 7 (by decide)).fired 20 "early" [.schedule 7 10 "refused"] 20 [.fire 50]
    (by simp [Op.Ends]) le_rfl
  refine ⟨hinStep, by decide, by decide, ?_, ?_, htold.trans (by decide)⟩
  · rw [hcancel, hheld]
    rfl
  · exact ((hschedule 7 60 "again").1 (by rw [hheld]; rfl)).1.trans (by decide)

end Flotilla.DeadlineQueue
