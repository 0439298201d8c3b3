import Flotilla.Proofs.Requests.Ledger

/-!
# Who answers requests

A request has a reply for its outcome only if a message with its key came in on its reply topic
while it waited (`Correlator.Offered.answered`). Whatever else is done to the requests answers none
of them (`Correlator.Unanswered`).
-/

namespace Flotilla

/-- The message as the reply to the request with its key. -/
def Message.response (m : Message) (now : Nat) : Response :=
  ⟨m.correlationId, m.topic, m.sender, m.payload, now⟩

namespace Correlator

open Ledger (nthKey)

/-- What waits has a key that was given out. -/
def Numbered (c : Correlator) : Prop :=
  ∀ key p, c.pending.get? key = some p → ∃ n, n < c.sent ∧ key = nthKey n

/-- Requests come and go, and none is answered. -/
structure Unanswered (c d : Correlator) : Prop where
  config : d.config = c.config
  sent : c.sent ≤ d.sent
  numbered : c.Numbered → d.Numbered
  outcome : ∀ key r, d.outcome? key = some (.ok r) → c.outcome? key = some (.ok r)

variable {b c d : Correlator} {fate : Fate} {key : CorrelationKey} {m : Message} {now : Nat}

/-- Nothing waits at a new correlator. -/
theorem numbered_new (config : Config) (now : Nat) : (new config now).Numbered := nofun

/-- Where nothing happens, nothing is answered. -/
theorem Unanswered.refl (c : Correlator) : Unanswered c c :=
  ⟨rfl, Nat.le_refl _, id, fun _ _ h => h⟩

/-- Two operations that answer no request answer none together. -/
theorem Unanswered.trans (h : Unanswered b c) (k : Unanswered c d) : Unanswered b d where
  config := k.config.trans h.config
  sent := Nat.le_trans h.sent k.sent
  numbered hb := k.numbered (h.numbered hb)
  outcome key r hd := h.outcome key r (k.outcome key r hd)

/-- Where requests only leave the table, what waits has a key that was given out. -/
theorem Settles.numbered (h : Settles fate c d) (hc : c.Numbered) : d.Numbered := by
  intro key p hp
  rw [h.sent]
  exact hc key p (h.get?_of_some hp)

/-- Requests that are settled otherwise than by a reply are not answered. -/
theorem Settles.unanswered (h : Settles fate c d)
    (hfate : ∀ key p r, fate.outcome? key p ≠ some (.ok r)) : Unanswered c d where
  config := h.config
  sent := Nat.le_of_eq h.sent.symm
  numbered := h.numbered
  outcome key r hd := by
    rw [h.outcome] at hd
    cases hc : c.outcome? key with
    | some outcome => rwa [hc, Option.some_or] at hd
    | none =>
      rw [hc, Option.none_or] at hd
      split at hd
      · cases hd
      · obtain ⟨p, -, houtcome⟩ := Option.bind_eq_some_iff.1 hd
        exact (hfate key p r houtcome).elim

private theorem unanswered_drop (c : Correlator) (key : CorrelationKey) :
    Unanswered c (c.drop key) :=
  (settles_drop c key).unanswered nofun

/-- Cancelling a request answers none. -/
theorem unanswered_cancel (c : Correlator) (key : CorrelationKey) : Unanswered c (c.cancel key).2 :=
  (settles_cancel c key).unanswered nofun

/-- Cancelling the requests of a job answers none. -/
theorem unanswered_cancelOwnedBy (c : Correlator) (job : JobId) :
    Unanswered c (c.cancelOwnedBy job).2 :=
  (settles_cancelOwnedBy c job).unanswered nofun

/-- Tearing down answers no request. -/
theorem unanswered_close (c : Correlator) : Unanswered c c.close.2 :=
  (settles_close c).unanswered nofun

/-- Letting deadlines go answers no request. -/
theorem unanswered_pollDeadlines (c : Correlator) (now : Nat) :
    Unanswered c (c.pollDeadlines now) :=
  (settles_pollDeadlines c now).unanswered nofun

/-- To note a fault answers nothing. -/
theorem unanswered_settle (c : Correlator) (key : CorrelationKey) (fault : Fault) :
    Unanswered c (c.settle key (.error fault)) where
  config := rfl
  sent := Nat.le_refl _
  numbered h := h
  outcome x r h := by
    change Table.lookup x (c.settled ++ [(key, .error fault)]) = some (.ok r) at h
    rw [Table.lookup_append, Option.or_eq_some_iff] at h
    rcases h with hold | ⟨-, hnew⟩
    · exact hold
    · obtain ⟨⟩ := List.mem_singleton.1 (Table.mem_of_lookup hnew)

/-- Giving up answers no request. -/
theorem unanswered_abandon (c : Correlator) : Unanswered c c.abandon := by
  unfold abandon
  generalize c.pending.entries = entries
  induction entries generalizing c with
  | nil => exact .refl c
  | cons e entries ih =>
    have hgivenUp := (unanswered_drop c e.1).trans (unanswered_settle _ e.1 (.cancelled e.1))
    exact hgivenUp.trans (ih _)

/-- To send a request answers nothing. -/
theorem unanswered_send {β : Type} (c : Correlator) (now : Nat) (publish : Message → Except Fault β)
    (request : Request) (timeout : Nat) : Unanswered c (c.send now publish request timeout).2 := by
  rw [send_eq]
  rcases c.enter_cases now request timeout with ⟨fault, he⟩ | ⟨handle, d, he, hentered⟩
  · rw [he]
    refine ⟨rfl, Nat.le_succ _, fun hc key p hp => ?_, fun _ _ h => h⟩
    obtain ⟨n, hn, hkey⟩ := hc key p hp
    exact ⟨n, Nat.lt_succ_of_lt hn, hkey⟩
  · rw [he]
    have hd : Unanswered c d := by
      refine ⟨hentered.config, hentered.sent ▸ Nat.le_succ _, fun hc key p hp => ?_, ?_⟩
      · rw [hentered.sent]
        rw [hentered.pending, Table.get?_set] at hp
        split at hp
        · next hkey => exact ⟨c.sent, Nat.lt_succ_self _, hkey ▸ hentered.key⟩
        · obtain ⟨n, hn, hkey⟩ := hc key p hp
          exact ⟨n, Nat.lt_succ_of_lt hn, hkey⟩
      · intro key r h
        rwa [outcome?, hentered.settled] at h
    dsimp only
    cases publish (d.message handle.key request now) with
    | ok channel => exact hd
    | error fault => exact hd.trans (unanswered_drop d handle.key)

/-- What offering a message any number of times can do: it takes requests out of the table that wait
for it under its key and on its topic. -/
structure Offered (m : Message) (now : Nat) (c d : Correlator) : Prop where
  settles : Settles (.answered m now) c d
  kept : ∀ key p, c.pending.get? key = some p →
    d.pending.get? key = some p ∨ (m.correlationId = key ∧ m.topic = p.replyTopic)

/-- A message may be offered no times. -/
theorem Offered.refl (m : Message) (now : Nat) (c : Correlator) : Offered m now c c :=
  ⟨.refl _ c, fun _ _ hp => Or.inl hp⟩

/-- A message may be offered again. -/
theorem Offered.trans (h : Offered m now b c) (k : Offered m now c d) : Offered m now b d where
  settles := h.settles.trans k.settles
  kept key p hp := by
    rcases h.kept key p hp with hc | hanswered
    · exact k.kept key p hc
    · exact Or.inr hanswered

/-- A message that comes in takes at most the request out of the table that waits for it. -/
theorem offered_onMessage (c : Correlator) (now : Nat) (m : Message) :
    Offered m now c (c.onMessage now m) where
  settles := settles_onMessage c now m
  kept key p hp := by
    rcases c.onMessage_cases now m with
      ⟨-, he⟩ | ⟨-, -, he⟩ | ⟨request, -, hrequest, ⟨-, he⟩ | ⟨htopic, he⟩⟩ <;> rw [he]
    · exact Or.inl hp
    · exact Or.inl hp
    · exact Or.inl hp
    · by_cases hkey : m.correlationId = key
      · subst hkey
        cases hrequest.symm.trans hp
        exact Or.inr ⟨rfl, htopic⟩
      · have hget := Table.get?_erase c.pending m.correlationId key
        rw [if_neg hkey] at hget
        exact Or.inl (hget.trans hp)

/-- Whatever is answered when a message is offered waited for it. -/
theorem Offered.answered (h : Offered m now c d) {r : Response}
    (hd : d.outcome? key = some (.ok r)) :
    c.outcome? key = some (.ok r) ∨ (c.outcome? key = none ∧ m.correlationId = key ∧
      r = m.response now ∧ ∃ p, c.pending.get? key = some p ∧ m.topic = p.replyTopic) := by
  rw [h.settles.outcome] at hd
  cases hc : c.outcome? key with
  | some outcome => exact Or.inl (by rwa [hc, Option.some_or] at hd)
  | none =>
    rw [hc, Option.none_or] at hd
    split at hd
    · cases hd
    · next hgone =>
      obtain ⟨p, hp, hreply⟩ := Option.bind_eq_some_iff.1 hd
      rcases h.kept key p hp with hwaits | ⟨rfl, htopic⟩
      · exact (hgone ((Table.contains_eq_true_iff _ _).2 ⟨p, hwaits⟩)).elim
      · cases hreply
        exact Or.inr ⟨rfl, rfl, rfl, p, hp, htopic⟩

end Correlator

end Flotilla
