import Flotilla.Proofs.Deadlines
import Flotilla.Proofs.Requests.Settling

/-!
# Requests and their deadlines

The requests that wait are those with a deadline in the queue, and the queue is well formed
(`Correlator.Aligned`). Each operation keeps this, from the entry of a request to the teardown of
the channel: no deadline outlives its request, and no request waits without one.
-/

namespace Flotilla

namespace Supervisor

variable {α : Type}

/-- Scheduling with the supervisor is scheduling in its queue, and calls its task. -/
theorem queue_scheduleAt {s : Supervisor α} {key : CorrelationKey} {deadline : Nat} {tell : α}
    {q : DeadlineQueue α} (h : s.queue.schedule key deadline tell = .ok q) :
    s.scheduleAt key deadline tell = .ok { s with queue := q, called := true } := by
  rw [scheduleAt, h]
  rfl

/-- What the supervisor schedules is scheduled in its queue. -/
theorem schedule_of_scheduleAt {s t : Supervisor α} {key : CorrelationKey} {deadline : Nat}
    {tell : α} (h : s.scheduleAt key deadline tell = .ok t) :
    s.queue.schedule key deadline tell = .ok t.queue := by
  rw [scheduleAt] at h
  cases hq : s.queue.schedule key deadline tell with
  | error fault => rw [hq] at h; cases h
  | ok q => rw [hq] at h; cases h; rfl

end Supervisor

namespace Correlator

variable {c d : Correlator}

/-- The first half of sending a request: it gets a key, a place in the table and a deadline. Its
message has not been handed to the channel yet. -/
def enter (c : Correlator) (now : Nat) (request : Request) (timeout : Nat) :
    Except Fault Handle × Correlator :=
  let key := UInt64.ofNat (c.sent + 1)
  let c := { c with sent := c.sent + 1 }
  let deadline := c.supervisor.deadlineAfter now timeout
  match c.register key request deadline timeout with
  | .error fault => (.error fault, c)
  | .ok c => (.ok ⟨key, deadline⟩, c)

/-- Sending a request is entering it and handing its message to the channel; when the channel
refuses the message the request is withdrawn. -/
theorem send_eq {β : Type} (c : Correlator) (now : Nat) (publish : Message → Except Fault β)
    (request : Request) (timeout : Nat) :
    c.send now publish request timeout =
      match c.enter now request timeout with
      | (.error fault, c) => (.error fault, c)
      | (.ok handle, c) =>
        let message := c.message handle.key request now
        match publish message with
        | .error fault => (.error (refusal message.topic fault), c.drop handle.key)
        | .ok channel => (.ok (handle, channel), c) := by
  unfold send enter
  dsimp only
  cases register { c with sent := c.sent + 1 } (UInt64.ofNat (c.sent + 1)) request
    (Supervisor.deadlineAfter c.supervisor now timeout) timeout <;> rfl

/-- The entry that a request is given in the table. -/
def entryFor (config : Config) (request : Request) (timeout : Nat) : Pending :=
  ⟨request.target, config.replyTopic request.target, request.owner, timeout⟩

/-- A request has been entered under a key that nothing waited for. -/
structure Entered (c : Correlator) (handle : Handle) (request : Request) (timeout : Nat)
    (d : Correlator) : Prop where
  key : handle.key = UInt64.ofNat (c.sent + 1)
  config : d.config = c.config
  sent : d.sent = c.sent + 1
  settled : d.settled = c.settled
  tally : d.tally = c.tally
  fresh : c.pending.get? handle.key = none
  pending : d.pending = c.pending.set handle.key (entryFor c.config request timeout)
  queue : c.supervisor.queue.schedule handle.key handle.deadline () = .ok d.supervisor.queue

/-- Entering a request uses up a key, and enters the request under it or fails. -/
theorem enter_cases (c : Correlator) (now : Nat) (request : Request) (timeout : Nat) :
    (∃ fault, c.enter now request timeout = (.error fault, { c with sent := c.sent + 1 })) ∨
      ∃ handle d, c.enter now request timeout = (.ok handle, d) ∧
        c.Entered handle request timeout d := by
  unfold enter
  dsimp only
  cases h : register { c with sent := c.sent + 1 } (UInt64.ofNat (c.sent + 1)) request
    (Supervisor.deadlineAfter c.supervisor now timeout) timeout with
  | error fault => exact Or.inl ⟨fault, rfl⟩
  | ok d =>
    refine Or.inr ⟨_, d, rfl, ?_⟩
    unfold register at h
    split at h
    · cases h
    · next hfresh =>
      rw [Bool.not_eq_true, Table.contains_eq_false_iff] at hfresh
      cases hs : c.supervisor.scheduleAt (UInt64.ofNat (c.sent + 1))
        (Supervisor.deadlineAfter c.supervisor now timeout) () with
      | error fault =>
        rw [hs] at h
        cases h
      | ok supervisor =>
        rw [hs] at h
        cases h
        exact ⟨rfl, rfl, rfl, rfl, rfl, hfresh, rfl, Supervisor.schedule_of_scheduleAt hs⟩

/-- The deadline of a handle is the one that the supervisor has for its time. -/
theorem deadline_of_enter {now : Nat} {request : Request} {timeout : Nat} {handle : Handle}
    (h : c.enter now request timeout = (.ok handle, d)) :
    handle.deadline = c.supervisor.deadlineAfter now timeout := by
  unfold enter at h
  dsimp only at h
  split at h
  · cases h
  · cases h
    rfl

/-- The requests that wait are those with a deadline. -/
structure Aligned (c : Correlator) : Prop where
  queue : c.supervisor.queue.WellFormed
  same : ∀ key, (c.supervisor.queue.deadline? key).isSome = c.pending.contains key

/-- A new correlator has no requests and no deadlines. -/
theorem aligned_new (config : Config) (now : Nat) : (new config now).Aligned where
  queue := DeadlineQueue.wellFormed_empty
  same _ := rfl

/-- Only requests and deadlines count. -/
theorem Aligned.congr (h : c.Aligned) (hqueue : d.supervisor.queue = c.supervisor.queue)
    (hpending : d.pending = c.pending) : d.Aligned where
  queue := hqueue ▸ h.queue
  same key := by rw [hqueue, hpending, h.same]

/-- A key without a deadline is one that nothing waits under. -/
theorem Aligned.deadline?_eq_none_iff (h : c.Aligned) (key : CorrelationKey) :
    c.supervisor.queue.deadline? key = none ↔ c.pending.get? key = none := by
  rw [← Table.contains_eq_false_iff, ← h.same, Option.isSome_eq_false_iff,
    Option.isNone_iff_eq_none]

/-- With a key that nothing waits for, entering a request succeeds. -/
theorem Aligned.enter_eq_ok (h : c.Aligned) (now : Nat) (request : Request) (timeout : Nat)
    (hfresh : c.pending.get? (UInt64.ofNat (c.sent + 1)) = none) :
    ∃ handle d, c.enter now request timeout = (.ok handle, d) ∧
      c.Entered handle request timeout d := by
  rcases c.enter_cases now request timeout with ⟨fault, herror⟩ | hok
  · have hdeadline := (h.deadline?_eq_none_iff _).2 hfresh
    have hschedule := Supervisor.queue_scheduleAt (DeadlineQueue.schedule_eq_ok hdeadline
      (Supervisor.deadlineAfter c.supervisor now timeout) ())
    have hcontains := (Table.contains_eq_false_iff c.pending _).2 hfresh
    unfold enter register at herror
    dsimp only at herror
    rw [hcontains, if_neg Bool.false_ne_true, hschedule] at herror
    cases congrArg Prod.fst herror
  · exact hok

/-- Entering a request enters its deadline. -/
theorem Aligned.entered (h : c.Aligned) {handle : Handle} {request : Request} {timeout : Nat}
    (he : c.Entered handle request timeout d) : d.Aligned where
  queue := h.queue.schedule he.queue
  same key := by
    rw [DeadlineQueue.deadline?_schedule he.queue, Table.contains, he.pending, Table.get?_set]
    split
    · rfl
    · exact h.same key

/-- Dropping a request drops its deadline. -/
theorem Aligned.drop (h : c.Aligned) (key : CorrelationKey) : (c.drop key).Aligned where
  queue := h.queue.cancel key
  same x := by
    have hget := Table.get?_erase c.pending key x
    have hdeadline := DeadlineQueue.deadline?_cancel c.supervisor.queue key x
    have hsame := h.same x
    change ((c.supervisor.queue.cancel key).2.deadline? x).isSome =
      ((c.pending.erase key).get? x).isSome
    rw [hget, hdeadline]
    split
    · rfl
    · exact hsame

/-- A message that comes in leaves requests and deadlines in step. -/
theorem Aligned.onMessage (h : c.Aligned) (now : Nat) (m : Message) :
    (c.onMessage now m).Aligned := by
  rcases c.onMessage_cases now m with
    ⟨-, he⟩ | ⟨-, -, he⟩ | ⟨request, -, -, ⟨-, he⟩ | ⟨-, he⟩⟩ <;> rw [he]
  · exact h
  · exact h.congr rfl rfl
  · exact h
  · exact (h.drop m.correlationId).congr rfl rfl

/-- Cancelling a request leaves requests and deadlines in step. -/
theorem Aligned.cancel (h : c.Aligned) (key : CorrelationKey) : (c.cancel key).2.Aligned := by
  unfold Correlator.cancel
  split
  · exact h
  · exact (h.drop key).congr rfl rfl

/-- Cancelling the requests of a job leaves requests and deadlines in step. -/
theorem Aligned.cancelOwnedBy (h : c.Aligned) (job : JobId) : (c.cancelOwnedBy job).2.Aligned :=
  cancelOwnedBy_induct h (fun _ key hb => hb.cancel key) job

private theorem Aligned.tearDownAll (h : c.Aligned) (entries : List (CorrelationKey × Pending)) :
    (entries.foldl (fun c e => c.tearDown e.1 e.2) c).Aligned := by
  induction entries generalizing c with
  | nil => exact h
  | cons e entries ih => exact ih ((h.drop e.1).congr rfl rfl)

/-- Tearing down leaves neither requests nor deadlines. -/
theorem Aligned.close (h : c.Aligned) : c.close.2.Aligned := h.tearDownAll c.pending.entries

private theorem supervisor_expireAll (c : Correlator) (fired : List (CorrelationKey × Unit)) :
    (fired.foldl (fun c e => c.expire e.1) c).supervisor = c.supervisor := by
  induction fired generalizing c with
  | nil => rfl
  | cons e fired ih =>
    rw [List.foldl_cons, ih]
    unfold expire
    split <;> rfl

private theorem get?_pending_expire (c : Correlator) (key x : CorrelationKey) :
    (c.expire key).pending.get? x = if key = x then none else c.pending.get? x := by
  unfold expire
  split
  · next hn =>
    split
    · next hx => rw [← hx, hn]
    · rfl
  · exact Table.get?_erase c.pending key x

private theorem get?_pending_expireAll (c : Correlator) (fired : List (CorrelationKey × Unit))
    (x : CorrelationKey) : (fired.foldl (fun c e => c.expire e.1) c).pending.get? x =
      if x ∈ fired.map Prod.fst then none else c.pending.get? x := by
  induction fired generalizing c with
  | nil => rfl
  | cons e fired ih =>
    rw [List.foldl_cons, ih, get?_pending_expire, List.map_cons]
    by_cases hx : e.1 = x
    · rw [if_pos hx, ite_self, if_pos (hx ▸ List.mem_cons_self)]
    · simp only [List.mem_cons, Ne.symm hx, false_or, hx, if_false]

/-- The requests that still wait after the supervisor has run are those whose deadlines have not
come. -/
theorem Aligned.get?_pending_pollDeadlines (h : c.Aligned) (now : Nat) (key : CorrelationKey) :
    (c.pollDeadlines now).pending.get? key =
      if ∃ deadline, c.supervisor.queue.deadline? key = some deadline ∧ deadline ≤ now then none
      else c.pending.get? key := by
  have hget := get?_pending_expireAll { c with supervisor := (c.supervisor.poll now).2 }
    (c.supervisor.queue.fire now).1 key
  rw [if_congr ((h.queue.fires now).mem_keys_iff key) rfl rfl] at hget
  exact hget

/-- The deadlines after the supervisor has run are those that have not come. -/
theorem Aligned.deadline?_pollDeadlines (h : c.Aligned) (now : Nat) (key : CorrelationKey) :
    (c.pollDeadlines now).supervisor.queue.deadline? key =
      (c.supervisor.queue.deadline? key).filter fun deadline => decide (now < deadline) := by
  have hsupervisor : (c.pollDeadlines now).supervisor.queue = (c.supervisor.queue.fire now).2 :=
    congrArg Supervisor.queue (supervisor_expireAll _ _)
  rw [hsupervisor]
  exact (h.queue.fires now).deadline?_left key

/-- Letting deadlines go leaves requests and deadlines in step. -/
theorem Aligned.pollDeadlines (h : c.Aligned) (now : Nat) : (c.pollDeadlines now).Aligned where
  queue := by
    have hsupervisor : (c.pollDeadlines now).supervisor.queue = (c.supervisor.queue.fire now).2 :=
      congrArg Supervisor.queue (supervisor_expireAll _ _)
    rw [hsupervisor]
    exact (h.queue.fires now).wellFormed
  same key := by
    have hsame := h.same key
    rw [h.deadline?_pollDeadlines, Table.contains, h.get?_pending_pollDeadlines]
    cases hd : c.supervisor.queue.deadline? key with
    | none =>
      rw [hd] at hsame
      rw [Option.filter_none, if_neg (by rintro ⟨_, he, -⟩; cases he)]
      exact hsame
    | some deadline =>
      rw [hd] at hsame
      rw [Option.filter_some]
      simp only [Option.some.injEq, exists_eq_left']
      by_cases hnow : now < deadline
      · rw [if_pos (decide_eq_true hnow), if_neg (Nat.not_le.2 hnow)]
        exact hsame
      · rw [if_neg (by simpa using hnow), if_pos (Nat.not_lt.1 hnow)]
        rfl

end Correlator

end Flotilla
