import Flotilla.Proofs.Requests.Ledger

/-!
# Handles and deadlines

A request that waits does so until the deadline of its handle: no operation moves a deadline
(`Correlator.Retains`), and a key is not given to another request while one waits under it. So at
every moment of a run the table of requests, the entries of the deadline queue and its order have
the same keys, each of them once, and the deadlines are those of the handles (`Desk.matched_run`).
-/

namespace Flotilla

namespace Correlator

/-- Whatever waits after an operation has waited before it, until the same deadline. -/
def Retains (c d : Correlator) : Prop :=
  ∀ key request, d.pending.get? key = some request → c.pending.get? key = some request ∧
    d.supervisor.queue.deadline? key = c.supervisor.queue.deadline? key

variable {b c d : Correlator}

private theorem Retains.of_eq (hpending : d.pending = c.pending)
    (hqueue : d.supervisor.queue = c.supervisor.queue) : Retains c d := by
  intro key request h
  rw [hqueue]
  exact ⟨hpending ▸ h, rfl⟩

private theorem Retains.refl (c : Correlator) : Retains c c := .of_eq rfl rfl

private theorem Retains.trans (h : Retains b c) (k : Retains c d) : Retains b d := by
  intro key request hd
  obtain ⟨hc, hdeadline⟩ := k key request hd
  obtain ⟨hb, hsame⟩ := h key request hc
  exact ⟨hb, hdeadline.trans hsame⟩

/-- Dropping a request puts none into the table, and leaves the others their deadlines. -/
theorem retains_drop (c : Correlator) (key : CorrelationKey) : Retains c (c.drop key) := by
  intro x request h
  have hget := Table.get?_erase c.pending key x
  have hdeadline := DeadlineQueue.deadline?_cancel c.supervisor.queue key x
  change (c.pending.erase key).get? x = some request at h
  by_cases hx : key = x
  · rw [hget, if_pos hx] at h
    cases h
  · rw [if_neg hx] at hget hdeadline
    exact ⟨hget ▸ h, hdeadline⟩

/-- Nothing but one request has been taken out. -/
theorem Retains.of_drop {key : CorrelationKey} (hpending : d.pending = (c.drop key).pending)
    (hqueue : d.supervisor.queue = (c.drop key).supervisor.queue) : Retains c d :=
  (retains_drop c key).trans (.of_eq hpending hqueue)

/-- A message puts no request into the table, and leaves those in it their deadlines. -/
theorem retains_onMessage (c : Correlator) (now : Nat) (m : Message) :
    Retains c (c.onMessage now m) := by
  rcases c.onMessage_cases now m with
    ⟨-, he⟩ | ⟨-, -, he⟩ | ⟨request, -, -, ⟨-, he⟩ | ⟨-, he⟩⟩ <;> rw [he]
  · exact .refl c
  · exact .of_eq rfl rfl
  · exact .refl c
  · exact .of_drop rfl rfl

/-- Cancelling a request puts none into the table, and leaves the others their deadlines. -/
theorem retains_cancel (c : Correlator) (key : CorrelationKey) : Retains c (c.cancel key).2 := by
  unfold cancel
  split
  · exact .refl c
  · exact .of_drop rfl rfl

/-- Cancelling the requests of a job puts none into the table, and leaves the others their
deadlines. -/
theorem retains_cancelOwnedBy (c : Correlator) (job : JobId) :
    Retains c (c.cancelOwnedBy job).2 :=
  cancelOwnedBy_induct (.refl c) (fun b key hb => hb.trans (retains_cancel b key)) job

/-- Nothing waits once the channel is torn down. -/
theorem retains_close (c : Correlator) : Retains c c.close.2 := by
  intro key request h
  rw [Table.get?, pending_close] at h
  cases h

/-- The supervisor lets those wait on whose deadlines have not come. -/
theorem Aligned.retains_pollDeadlines (h : c.Aligned) (now : Nat) :
    Retains c (c.pollDeadlines now) := by
  intro key request hd
  rw [h.get?_pending_pollDeadlines now key] at hd
  split at hd
  · cases hd
  · next hlate =>
    refine ⟨hd, ?_⟩
    rw [h.deadline?_pollDeadlines]
    cases hdeadline : c.supervisor.queue.deadline? key with
    | none => rfl
    | some deadline =>
      have hnow : now < deadline := Nat.lt_of_not_le fun hle => hlate ⟨deadline, hdeadline, hle⟩
      rw [Option.filter_some, if_pos (decide_eq_true hnow)]

/-- The deadlines after a request has been entered: its own is that of its handle. -/
theorem Entered.deadline? {handle : Handle} {request : Request} {timeout : Nat}
    (h : c.Entered handle request timeout d) (key : CorrelationKey) :
    d.supervisor.queue.deadline? key =
      if handle.key = key then some handle.deadline else c.supervisor.queue.deadline? key :=
  DeadlineQueue.deadline?_schedule h.queue key

end Correlator

/-- A correlator at work and the handles that it has made. -/
structure Desk where
  now : Nat
  correlator : Correlator
  /-- The handles, the latest first. -/
  handles : List Handle

namespace Desk

open Ledger (Move)

/-- A correlator that has just been made. -/
def start (config : Config) (now : Nat) : Desk := ⟨now, .new config now, []⟩

/-- One move, whatever has gone before it: the verdict of the channel may be passed on any key at
any time. -/
def step (d : Desk) : Move → Desk
  | .enter request timeout =>
    match d.correlator.enter d.now request timeout with
    | (.ok handle, c) => { d with correlator := c, handles := handle :: d.handles }
    | (.error _, c) => { d with correlator := c }
  | .verdict key taken => if taken then d else { d with correlator := d.correlator.drop key }
  | .message m => { d with correlator := d.correlator.onMessage d.now m }
  | .cancel key => { d with correlator := (d.correlator.cancel key).2 }
  | .cancelOwnedBy job => { d with correlator := (d.correlator.cancelOwnedBy job).2 }
  | .close => { d with correlator := d.correlator.close.2 }
  | .fire => { d with correlator := d.correlator.pollDeadlines d.now }
  | .pass span => { d with now := d.now + span }

/-- A row of moves on a new correlator. -/
def run (config : Config) (now : Nat) (moves : List Move) : Desk :=
  moves.foldl step (start config now)

/-- The handle of a key that was made last. -/
def handle? (d : Desk) (key : CorrelationKey) : Option Handle := d.handles.find? (·.key = key)

/-- The requests that wait and their deadlines are in step. -/
structure InStep (d : Desk) : Prop where
  aligned : d.correlator.Aligned
  /-- What waits has a deadline, and it is that of its handle. -/
  deadline : ∀ key request, d.correlator.pending.get? key = some request →
    d.correlator.supervisor.queue.deadline? key = (d.handle? key).map Handle.deadline

variable {d : Desk}

/-- A new desk has given out no handles. -/
theorem inStep_start (config : Config) (now : Nat) : (start config now).InStep where
  aligned := Correlator.aligned_new config now
  deadline _ _ h := nomatch h

/-- An operation that moves no deadline and enters nothing keeps them in step. -/
theorem InStep.retains (h : d.InStep) {c : Correlator} (ha : c.Aligned)
    (hr : d.correlator.Retains c) : InStep { d with correlator := c } where
  aligned := ha
  deadline key request hc := by
    obtain ⟨hd, hsame⟩ := hr key request hc
    exact hsame.trans (h.deadline key request hd)

/-- So does entering a request. -/
theorem InStep.entered (h : d.InStep) {handle : Handle} {request : Request} {timeout : Nat}
    {c : Correlator} (he : d.correlator.Entered handle request timeout c) :
    InStep { d with correlator := c, handles := handle :: d.handles } where
  aligned := h.aligned.entered he
  deadline key pending hc := by
    rw [handle?]
    dsimp only at hc ⊢
    rw [he.pending, Table.get?_set] at hc
    rw [he.deadline?]
    by_cases hkey : handle.key = key
    · rw [if_pos hkey, List.find?_cons_of_pos (by simpa using hkey), Option.map_some]
    · rw [if_neg hkey] at hc ⊢
      rw [List.find?_cons_of_neg (by simpa using hkey)]
      exact h.deadline key pending hc

/-- A move keeps handles, requests and deadlines in step. -/
theorem InStep.step (h : d.InStep) (move : Move) : (d.step move).InStep := by
  cases move with
  | enter request timeout =>
    rw [Desk.step]
    rcases d.correlator.enter_cases d.now request timeout with ⟨fault, he⟩ | ⟨handle, c, he, hc⟩
    · rw [he]
      exact h.retains (h.aligned.congr rfl rfl) (.of_eq rfl rfl)
    · rw [he]
      exact h.entered hc
  | verdict key taken =>
    cases taken with
    | true => exact h
    | false => exact h.retains (h.aligned.drop key) (Correlator.retains_drop _ key)
  | message m => exact h.retains (h.aligned.onMessage _ m) (Correlator.retains_onMessage _ _ m)
  | cancel key => exact h.retains (h.aligned.cancel key) (Correlator.retains_cancel _ key)
  | cancelOwnedBy job =>
    exact h.retains (h.aligned.cancelOwnedBy job) (Correlator.retains_cancelOwnedBy _ job)
  | close => exact h.retains h.aligned.close (Correlator.retains_close _)
  | fire => exact h.retains (h.aligned.pollDeadlines _) (h.aligned.retains_pollDeadlines _)
  | pass span => exact { h with }

/-- A row of moves keeps handles, requests and deadlines in step. -/
theorem InStep.foldl (h : d.InStep) (moves : List Move) : (moves.foldl Desk.step d).InStep := by
  induction moves generalizing d with
  | nil => exact h
  | cons move moves ih => exact ih (h.step move)

/-- Sending a request is entering it, and withdrawing it when the channel refuses its message; its
sender is given the handle that was made. -/
theorem correlator_send {β : Type} (d : Desk) (publish : Message → Except Fault β)
    (request : Request) (timeout : Nat) :
    ∃ refusals : List CorrelationKey,
      (d.correlator.send d.now publish request timeout).2 =
        ((refusals.map (.verdict · false)).foldl step
          (d.step (.enter request timeout))).correlator ∧
      ∀ handle channel,
        (d.correlator.send d.now publish request timeout).1 = .ok (handle, channel) →
          (d.step (.enter request timeout)).handles = handle :: d.handles := by
  rw [Correlator.send_eq, step]
  rcases d.correlator.enter_cases d.now request timeout with ⟨fault, he⟩ | ⟨handle, c, he, hc⟩
  · rw [he]
    exact ⟨[], rfl, nofun⟩
  · rw [he]
    dsimp only
    cases publish (c.message handle.key request d.now) with
    | ok channel =>
      refine ⟨[], rfl, ?_⟩
      intro _ _ heq
      cases heq
      rfl
    | error fault => exact ⟨[handle.key], rfl, nofun⟩

/-- The table of requests, the entries of the queue and its order say the same. -/
structure Matched (d : Desk) : Prop where
  /-- The keys with an entry are those that wait. -/
  entries : d.correlator.supervisor.queue.entries.keys.Perm d.correlator.pending.keys
  /-- So are the keys in the order, and none of them stands there twice. -/
  order : (d.correlator.supervisor.queue.order.map Prod.snd).Perm d.correlator.pending.keys
  once : d.correlator.pending.keys.Nodup
  /-- Each of them has the deadline of its handle in both places. -/
  deadline : ∀ key ∈ d.correlator.pending.keys, ∃ handle, d.handle? key = some handle ∧
    d.correlator.supervisor.queue.entries.get? key = some (handle.deadline, ()) ∧
    (handle.deadline, key) ∈ d.correlator.supervisor.queue.order

/-- Where they are in step, the keys of handles, requests and deadlines are the same. -/
theorem InStep.matched (h : d.InStep) : d.Matched := by
  have hentries :
      d.correlator.supervisor.queue.entries.keys.Perm d.correlator.pending.keys := by
    refine (List.perm_ext_iff_of_nodup (Table.nodup _) (Table.nodup _)).2 fun key => ?_
    change key ∈ Table.keys _ ↔ key ∈ Table.keys _
    rw [Table.mem_keys_iff, Table.mem_keys_iff, ← h.aligned.same, DeadlineQueue.deadline?,
      Option.isSome_map, Table.contains]
  refine ⟨hentries, h.aligned.queue.perm_keys.trans hentries, d.correlator.pending.nodup, ?_⟩
  intro key hkey
  obtain ⟨request, hrequest⟩ :=
    (Table.contains_eq_true_iff _ _).1 ((Table.mem_keys_iff _ _).1 hkey)
  obtain ⟨⟨deadline, _⟩, hentry⟩ := (Table.contains_eq_true_iff _ _).1
    ((Table.mem_keys_iff _ _).1 (hentries.mem_iff.2 hkey))
  have hdeadline : d.correlator.supervisor.queue.deadline? key = some deadline := by
    rw [DeadlineQueue.deadline?, hentry, Option.map_some]
  obtain ⟨handle, hhandle, rfl⟩ :=
    Option.map_eq_some_iff.1 ((h.deadline key request hrequest).symm.trans hdeadline)
  exact ⟨handle, hhandle, hentry, (h.aligned.queue.mem_order_iff _ _).2 hdeadline⟩

/-- At every moment of every run exactly the requests that wait have a deadline, once, and it is
the one that their handle tells. -/
theorem matched_run (config : Config) (now : Nat) (moves : List Move) :
    (run config now moves).Matched :=
  ((inStep_start config now).foldl moves).matched

end Desk

end Flotilla
