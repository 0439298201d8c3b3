import Flotilla.Proofs.Requests.Handles
import Flotilla.Proofs.Requests.Ledger
import Flotilla.Proofs.Requests.Service

/-!
# Requests under keys of their own

Keys are given out one after the other, so a key that has not been given out is in use for nothing,
and what waits has no outcome yet (`Correlator.WellKeyed`). This is kept when requests are settled
and when one is entered, as long as keys last; so entering one always succeeds.
-/

namespace Flotilla.Correlator

open Ledger (nthKey nthKey_injective nthKey_ne_zero)

/-- Keys that have not been given out are in use for nothing, and what waits has a key, no outcome
yet and the reply topic of its target. -/
structure WellKeyed (c : Correlator) : Prop where
  aligned : c.Aligned
  unused : ∀ n, c.sent ≤ n → n + 1 < 2 ^ 64 →
    c.pending.get? (nthKey n) = none ∧ c.outcome? (nthKey n) = none
  key : ∀ key request, c.pending.get? key = some request → key ≠ 0
  unsettled : ∀ key request, c.pending.get? key = some request → c.outcome? key = none
  topic : ∀ key request, c.pending.get? key = some request →
    request.replyTopic = c.config.replyTopic request.target

variable {c d : Correlator} {handle : Handle} {request : Request} {timeout : Nat}

/-- A new correlator is well-keyed. -/
theorem wellKeyed_new (config : Config) (now : Nat) : (new config now).WellKeyed where
  aligned := aligned_new config now
  unused _ _ _ := ⟨rfl, rfl⟩
  key := nofun
  unsettled := nofun
  topic := nofun

/-- Whatever is settled in whichever way, the rest stays well keyed. -/
theorem WellKeyed.settles {fate : Fate} (h : c.WellKeyed) (hs : Settles fate c d) (ha : d.Aligned) :
    d.WellKeyed where
  aligned := ha
  unused n hn hlt := by
    obtain ⟨hpending, houtcome⟩ := h.unused n (hs.sent ▸ hn) hlt
    refine ⟨hs.get?_eq_none hpending, ?_⟩
    rw [hs.outcome, houtcome, hpending, Option.bind_none, ite_self, Option.or_none]
  key key request hd := h.key key request (hs.get?_of_some hd)
  unsettled key request hd := by
    have hcontains : d.pending.contains key = true :=
      (Table.contains_eq_true_iff _ _).2 ⟨request, hd⟩
    rw [hs.outcome, h.unsettled key request (hs.get?_of_some hd), hcontains, if_pos rfl,
      Option.or_none]
  topic key request hd := by
    rw [hs.config]
    exact h.topic key request (hs.get?_of_some hd)

/-- A message that comes in leaves keys as they should be. -/
theorem WellKeyed.onMessage (h : c.WellKeyed) (now : Nat) (m : Message) :
    (c.onMessage now m).WellKeyed :=
  h.settles (settles_onMessage c now m) (h.aligned.onMessage now m)

/-- Letting deadlines go leaves keys as they should be. -/
theorem WellKeyed.pollDeadlines (h : c.WellKeyed) (now : Nat) : (c.pollDeadlines now).WellKeyed :=
  h.settles (settles_pollDeadlines c now) (h.aligned.pollDeadlines now)

/-- Cancelling the requests of a job leaves keys as they should be. -/
theorem WellKeyed.cancelOwnedBy (h : c.WellKeyed) (job : JobId) :
    (c.cancelOwnedBy job).2.WellKeyed :=
  h.settles (settles_cancelOwnedBy c job) (h.aligned.cancelOwnedBy job)

/-- The key of a request is the next one. -/
theorem Entered.key_eq (he : c.Entered handle request timeout d) : handle.key = nthKey c.sent :=
  he.key

/-- Entering a request leaves the others waiting. -/
theorem Entered.get?_pending_ne (he : c.Entered handle request timeout d) {key : CorrelationKey}
    (hkey : handle.key ≠ key) : d.pending.get? key = c.pending.get? key := by
  rw [he.pending, Table.get?_set_ne _ _ hkey]

/-- A request that was entered waits under its key. -/
theorem Entered.get?_pending_self (he : c.Entered handle request timeout d) :
    d.pending.get? handle.key = some (entryFor c.config request timeout) := by
  rw [he.pending, Table.get?_set_self]

/-- Entering a request settles none. -/
theorem Entered.outcome? (he : c.Entered handle request timeout d) (key : CorrelationKey) :
    d.outcome? key = c.outcome? key := by
  rw [Correlator.outcome?, he.settled, Correlator.outcome?]

/-- What waited waits on when another request is entered. -/
theorem Entered.get?_pending_of_some (he : c.Entered handle request timeout d)
    {key : CorrelationKey} {p : Pending} (hp : c.pending.get? key = some p) :
    d.pending.get? key = some p := by
  have hne : handle.key ≠ key := by
    rintro rfl
    cases he.fresh.symm.trans hp
  rw [he.get?_pending_ne hne, hp]

/-- Entering a request leaves keys as they should be, as long as they last. -/
theorem WellKeyed.entered (h : c.WellKeyed) (he : c.Entered handle request timeout d)
    (hsent : c.sent + 1 < 2 ^ 64) : d.WellKeyed where
  aligned := h.aligned.entered he
  unused n hn hlt := by
    rw [he.sent] at hn
    obtain ⟨hpending, houtcome⟩ := h.unused n (Nat.le_of_succ_le hn) hlt
    have hne : handle.key ≠ nthKey n := fun heq =>
      Nat.ne_of_lt hn (nthKey_injective hsent hlt (he.key_eq.symm.trans heq))
    exact ⟨(he.get?_pending_ne hne).trans hpending, (he.outcome? _).trans houtcome⟩
  key key p hp := by
    by_cases hkey : handle.key = key
    · rw [← hkey, he.key_eq]
      exact nthKey_ne_zero hsent
    · exact h.key key p ((he.get?_pending_ne hkey).symm.trans hp)
  unsettled key p hp := by
    rw [he.outcome?]
    by_cases hkey : handle.key = key
    · rw [← hkey, he.key_eq]
      exact (h.unused c.sent (Nat.le_refl _) hsent).2
    · exact h.unsettled key p ((he.get?_pending_ne hkey).symm.trans hp)
  topic key p hp := by
    rw [he.config]
    by_cases hkey : handle.key = key
    · subst hkey
      cases he.get?_pending_self.symm.trans hp
      rfl
    · exact h.topic key p ((he.get?_pending_ne hkey).symm.trans hp)

/-- A request can always be entered, as long as keys last. -/
theorem WellKeyed.enter (h : c.WellKeyed) (hsent : c.sent + 1 < 2 ^ 64) (now : Nat)
    (request : Request)
    (timeout : Nat) : ∃ handle d, c.enter now request timeout = (.ok handle, d) ∧
      c.Entered handle request timeout d ∧ d.WellKeyed ∧ d.outcome? handle.key = none := by
  have hunused := h.unused c.sent (Nat.le_refl _) hsent
  obtain ⟨handle, d, henter, he⟩ := h.aligned.enter_eq_ok now request timeout hunused.1
  refine ⟨handle, d, henter, he, h.entered he hsent, ?_⟩
  rw [he.outcome?, he.key_eq]
  exact hunused.2

/-- A request that was sent waits. -/
theorem get?_pending_send {β : Type} (c : Correlator) (now : Nat)
    (publish : Message → Except Fault β) (request : Request) (timeout : Nat) {handle : Handle}
    {channel : β} (h : (c.send now publish request timeout).1 = .ok (handle, channel)) :
    (c.send now publish request timeout).2.pending.get? handle.key =
      some (entryFor c.config request timeout) := by
  rw [send_eq] at h ⊢
  rcases c.enter_cases now request timeout with ⟨fault, he⟩ | ⟨handle', d, he, hentered⟩
  · rw [he] at h
    cases h
  · rw [he] at h ⊢
    dsimp only at h ⊢
    cases hpublish : publish (d.message handle'.key request now) with
    | error fault =>
      rw [hpublish] at h
      cases h
    | ok channel' =>
      rw [hpublish] at h
      cases h
      exact hentered.get?_pending_self

/-- A message with another topic leaves a request alone. -/
theorem WellKeyed.get?_pending_onMessage (h : c.WellKeyed) (now : Nat) {m : Message}
    {key : CorrelationKey} {p : Pending} (hp : c.pending.get? key = some p)
    (htopic : m.topic ≠ c.config.replyTopic p.target) :
    (c.onMessage now m).pending.get? key = some p := by
  rcases c.onMessage_cases now m with
    ⟨-, he⟩ | ⟨-, -, he⟩ | ⟨q, -, hq, ⟨-, he⟩ | ⟨hsame, he⟩⟩ <;> rw [he]
  · exact hp
  · exact hp
  · exact hp
  · have hne : m.correlationId ≠ key := by
      rintro rfl
      cases hq.symm.trans hp
      exact htopic (hsame.trans (h.topic _ _ hq))
    have hget := Table.get?_erase c.pending m.correlationId key
    rw [if_neg hne] at hget
    exact hget.trans hp

/-- A request whose deadline has not come waits on when the supervisor has run. -/
theorem WellKeyed.get?_pending_pollDeadlines (h : c.WellKeyed) {now : Nat} {key : CorrelationKey}
    {p : Pending} (hp : c.pending.get? key = some p)
    (htime : ∀ deadline, c.supervisor.queue.deadline? key = some deadline → now < deadline) :
    (c.pollDeadlines now).pending.get? key = some p := by
  rw [h.aligned.get?_pending_pollDeadlines, if_neg, hp]
  rintro ⟨deadline, hdeadline, hle⟩
  exact Nat.not_lt_of_le hle (htime deadline hdeadline)

/-- Calling off the requests of a job leaves those of the others. -/
theorem get?_pending_cancelOwnedBy_of_ne {job : JobId} {key : CorrelationKey} {p : Pending}
    (hp : c.pending.get? key = some p) (howner : p.owner ≠ some job) :
    (c.cancelOwnedBy job).2.pending.get? key = some p := by
  rw [get?_pending_cancelOwnedBy, if_neg, hp]
  exact fun hmem => howner ((mem_keysOwnedBy_iff hp job).1 hmem)

/-- The reply to a request that waits is what it comes to. -/
theorem WellKeyed.answered (h : c.WellKeyed) (now : Nat) {m : Message} {p : Pending}
    (hp : c.pending.get? m.correlationId = some p)
    (htopic : m.topic = c.config.replyTopic p.target) :
    (c.onMessage now m).outcome? m.correlationId =
      some (.ok ⟨m.correlationId, m.topic, m.sender, m.payload, now⟩) := by
  have hs := settles_onMessage c now m
  have hsame : m.topic = p.replyTopic := htopic.trans (h.topic _ _ hp).symm
  have hgone : (c.onMessage now m).pending.contains m.correlationId = false := by
    rcases c.onMessage_cases now m with
      ⟨hzero, -⟩ | ⟨-, hnone, -⟩ | ⟨q, -, hq, ⟨hne, -⟩ | ⟨-, he⟩⟩
    · exact (h.key _ _ hp hzero).elim
    · cases hnone.symm.trans hp
    · cases hq.symm.trans hp
      exact (hne hsame).elim
    · have hget := Table.get?_erase c.pending m.correlationId m.correlationId
      rw [if_pos rfl] at hget
      rw [he]
      exact (Table.contains_eq_false_iff _ _).2 hget
  rw [hs.outcome, h.unsettled _ _ hp, hgone, hp]
  rfl

end Flotilla.Correlator
