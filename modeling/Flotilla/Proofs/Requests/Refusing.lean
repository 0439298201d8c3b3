import Flotilla.Proofs.Requests.Racing

/-!
# Requests that the channel refuses

A request is entered in the table and in the queue of deadlines before its message goes to the
channel. When the channel refuses the message, both entries are undone. The key was new to both of
them, so they are what they were before, whatever else waits (`Correlator.Aligned.refused`). What
remains is that the key has been given out: it is spent (`Ledger.Spent`), and stays so in every run
that goes on from there (`Ledger.refused_run`).
-/

namespace Flotilla

namespace Correlator

variable {c d : Correlator} {now : Nat} {request : Request} {timeout : Nat} {handle : Handle}

/-- Entering a request changes the queue of the supervisor and calls its task. -/
theorem supervisor_of_enter (h : c.enter now request timeout = (.ok handle, d)) :
    d.supervisor = { c.supervisor with queue := d.supervisor.queue, called := true } := by
  unfold enter register at h
  dsimp only at h
  split at h
  · cases h
  · next e hregister =>
    cases h
    split at hregister
    · cases hregister
    · cases hs : c.supervisor.scheduleAt (UInt64.ofNat (c.sent + 1))
        (c.supervisor.deadlineAfter now timeout) () with
      | error fault =>
        rw [hs] at hregister
        cases hregister
      | ok supervisor =>
        rw [hs] at hregister
        cases hregister
        rw [Supervisor.queue_scheduleAt (Supervisor.schedule_of_scheduleAt hs)] at hs
        exact (Except.ok.inj hs).symm

/-- A request that is withdrawn as soon as it was entered leaves the table and the deadlines as
they were. Its key has been given out, and the supervisor has been called. -/
theorem Aligned.drop_of_enter (h : c.Aligned)
    (he : c.enter now request timeout = (.ok handle, d))
    (hentered : c.Entered handle request timeout d) :
    d.drop handle.key = { c with
      sent := c.sent + 1
      supervisor := { c.supervisor with called := true } } := by
  have hcancel := h.queue.cancel_of_schedule hentered.queue
  have hsupervisor := supervisor_of_enter he
  rw [Correlator.drop, Supervisor.cancel, hcancel, hentered.pending,
    Table.erase_set_of_fresh hentered.fresh, hentered.config, hentered.sent, hentered.tally,
    hentered.settled, hsupervisor]

/-- The message of a request depends on the settings alone. -/
theorem message_congr (h : d.config = c.config) (key : CorrelationKey) (request : Request)
    (now : Nat) : d.message key request now = c.message key request now := by
  rw [message, message, h]

/-- A fault of the channel is passed on as it is; any other is reported in its own words. -/
theorem refusal_cases (topic : String) (fault : Fault) :
    (∃ place reason, fault = .channelUnavailable place reason ∧ refusal topic fault = fault) ∨
      ((∀ place reason, fault ≠ .channelUnavailable place reason) ∧
        refusal topic fault = .channelUnavailable topic fault.message) := by
  cases fault with
  | channelUnavailable place reason => exact Or.inl ⟨place, reason, rfl, rfl⟩
  | _ => exact Or.inr ⟨nofun, rfl⟩

/-- How sending a request comes out when the channel refuses its message with a fault. -/
structure Refused {β : Type} (c : Correlator) (request : Request) (fault : Fault)
    (result : Except Fault (Handle × β) × Correlator) : Prop where
  /-- The sender is told that the channel is unavailable: in the words of the channel, or under the
  topic of the command when the fault is of another kind. -/
  told : (∃ topic reason, fault = .channelUnavailable topic reason ∧
      result.1 = .error (.channelUnavailable topic reason)) ∨
    (∀ topic reason, fault ≠ .channelUnavailable topic reason) ∧
      result.1 = .error (.channelUnavailable
        (c.config.commandTopic request.target request.command) fault.message)
  /-- The same requests wait until the same deadlines, and the counters and the outcomes are as
  they were; a key has been given out, and the task of the deadlines looks once more. -/
  state : result.2 = { c with
    sent := c.sent + 1
    supervisor := { c.supervisor with called := true } }

/-- A refused request that got a key of its own leaves no trace but the use of that key. -/
theorem Aligned.refused {β : Type} (h : c.Aligned) {publish : Message → Except Fault β}
    {fault : Fault} (hfresh : c.pending.get? (UInt64.ofNat (c.sent + 1)) = none)
    (hpublish : publish (c.message (UInt64.ofNat (c.sent + 1)) request now) = .error fault) :
    c.Refused request fault (c.send now publish request timeout) := by
  obtain ⟨handle, d, he, hentered⟩ := h.enter_eq_ok now request timeout hfresh
  have hmessage : d.message handle.key request now =
      c.message (UInt64.ofNat (c.sent + 1)) request now := by
    rw [message_congr hentered.config, hentered.key]
  rw [send_eq, he]
  dsimp only
  rw [hmessage, hpublish]
  refine ⟨?_, h.drop_of_enter he hentered⟩
  rcases refusal_cases (c.config.commandTopic request.target request.command) fault with
    ⟨place, reason, rfl, htold⟩ | ⟨hother, htold⟩
  · exact Or.inl ⟨place, reason, rfl, congrArg Except.error htold⟩
  · exact Or.inr ⟨hother, congrArg Except.error htold⟩

end Correlator

namespace Ledger

variable {l : Ledger} {key : CorrelationKey} {sent : Sent}

/-- The key of a request that was refused. It is in use for nothing, and will not be. -/
structure Spent (l : Ledger) (key : CorrelationKey) (sent : Sent) : Prop where
  /-- Nothing waits under it, -/
  pending : l.correlator.pending.get? key = none
  /-- and there is no deadline for it, -/
  deadline : l.correlator.supervisor.queue.deadline? key = none
  /-- so it does not fire, whenever the supervisor runs. -/
  silent : ∀ now, key ∉ (l.correlator.supervisor.poll now).1.map Prod.fst
  /-- Its request was withdrawn; it has not timed out, nor ended in any other way. -/
  fate : ∀ fate, (key, fate) ∈ l.fates ↔ fate = .withdrawn
  /-- Nobody has been told an outcome for it. -/
  outcome : l.correlator.outcome? key = none
  /-- A message with it is counted, and that is all. -/
  message : ∀ m, m.correlationId = key → l.step (.message m) = l.discard
  /-- It was given to this request, -/
  registered : (key, sent) ∈ l.registered
  /-- and to no other one before or after it. -/
  unique : (l.registered.map Prod.fst).count key = 1

/-- The key of a request that was withdrawn is spent. -/
theorem Sound.spent (h : l.Sound) (hsent : l.correlator.sent < 2 ^ 64)
    (hkey : (key, sent) ∈ l.registered) (hfate : (key, .withdrawn) ∈ l.fates) :
    l.Spent key sent := by
  have hgone := h.get?_eq_none_of_fate hsent (List.mem_map_of_mem (f := Prod.fst) hfate)
  have hdeadline := (h.aligned.deadline?_eq_none_iff key).2 hgone
  refine ⟨hgone, hdeadline, ?_, ?_, ?_, ?_, hkey, ?_⟩
  · intro now hfired
    obtain ⟨due, hdue, -⟩ := ((h.aligned.queue.fires now).mem_keys_iff key).1 hfired
    cases hdeadline.symm.trans hdue
  · intro fate
    refine ⟨fun hother => h.fate_unique hsent hother hfate, ?_⟩
    rintro rfl
    exact hfate
  · have hlookup := (Table.lookup_eq_some_iff (h.nodup_registered hsent) key sent).2 hkey
    exact h.outcome_of_fate hsent hlookup hfate
  · exact fun m hm => h.step_message_of_fate hsent hfate hm
  · exact List.count_eq_one_of_mem (h.nodup_registered hsent)
      (List.mem_map_of_mem (f := Prod.fst) hkey)

/-- The books after a request was sent and its message was refused. -/
def refuse (l : Ledger) (request : Request) (timeout : Nat) : Ledger :=
  (l.step (.enter request timeout)).step (.verdict (nthKey l.correlator.sent) false)

/-- A request that is refused uses up a key. -/
theorem sent_refuse (l : Ledger) (request : Request) (timeout : Nat) :
    (l.refuse request timeout).correlator.sent = l.correlator.sent + 1 := by
  rw [refuse, sent_step, (l.sent_enter request timeout).2]
  rfl

/-- A request that is refused leaves a ledger sound. -/
theorem Sound.refuse (h : l.Sound) (hsent : l.correlator.sent + 1 < 2 ^ 64) (request : Request)
    (timeout : Nat) : (l.refuse request timeout).Sound := by
  have hentered := h.step (.enter request timeout) (by rwa [(l.sent_enter request timeout).2])
  exact hentered.step (.verdict _ false) (by rwa [← Ledger.refuse, sent_refuse])

/-- A refused request is noted as withdrawn, under the next key. -/
theorem Sound.withdrawn_refuse (h : l.Sound) (hsent : l.correlator.sent + 1 < 2 ^ 64)
    (request : Request) (timeout : Nat) :
    (nthKey l.correlator.sent, ⟨request, timeout⟩) ∈ (l.refuse request timeout).registered ∧
      (nthKey l.correlator.sent, .withdrawn) ∈ (l.refuse request timeout).fates := by
  obtain ⟨handle, d, he, hentered⟩ := h.enter_eq_ok hsent request timeout
  obtain ⟨other, hother, -, hw⟩ := h.waits_enter hsent request timeout
  rw [he] at hother
  cases hother
  have hkey : handle.key = nthKey l.correlator.sent := hentered.key
  have hawaits := h.awaitsVerdict_enter hsent request timeout
  rw [Ledger.refuse, ← hkey]
  rw [← hkey] at hawaits
  constructor
  · refine (extends_step _ _).registered.subset ?_
    rw [Ledger.step, he]
    exact List.mem_append_right _ (List.mem_singleton_self _)
  · have hbound := sent_refuse l request timeout
    rw [Ledger.refuse, ← hkey] at hbound
    have hsound := h.step (.enter request timeout) (by rwa [(l.sent_enter request timeout).2])
    have hstood := hw.step hsound (.verdict handle.key false) (hbound.symm ▸ hsent)
    rwa [ends?, if_pos ⟨rfl, rfl, hawaits⟩] at hstood

/-- Sending a request whose message is refused is entering and withdrawing it. -/
theorem Sound.refused {β : Type} (h : l.Sound) (hsent : l.correlator.sent + 1 < 2 ^ 64)
    {publish : Message → Except Fault β} {request : Request} {fault : Fault} (timeout : Nat)
    (hpublish : publish (l.correlator.message (nthKey l.correlator.sent) request l.now) =
      .error fault) :
    l.correlator.Refused request fault (l.correlator.send l.now publish request timeout) ∧
      (l.refuse request timeout).correlator =
        (l.correlator.send l.now publish request timeout).2 := by
  obtain ⟨handle, d, -, hentered⟩ := h.enter_eq_ok hsent request timeout
  refine ⟨h.aligned.refused (hentered.key ▸ hentered.fresh) hpublish, ?_⟩
  have hconfig := (l.sent_enter request timeout).1
  rw [h.correlator_send hsent, Correlator.message_congr hconfig, hpublish]
  rfl

/-- In every run that goes on after a request was refused its key stays spent. -/
theorem Sound.spent_of_refuse (h : l.Sound) (request : Request) (timeout : Nat)
    (after : List Move)
    (hsent : l.correlator.sent + 1 + after.countP Move.isEnter < 2 ^ 64) :
    (after.foldl Ledger.step (l.refuse request timeout)).Spent (nthKey l.correlator.sent)
      ⟨request, timeout⟩ := by
  have hfits : l.correlator.sent + 1 < 2 ^ 64 := by omega
  obtain ⟨hregistered, hfate⟩ := h.withdrawn_refuse hfits request timeout
  have hmore := extends_foldl (l.refuse request timeout) after
  rw [← sent_refuse l request timeout] at hsent
  refine ((h.refuse hfits request timeout).foldl after hsent).spent ?_
    (hmore.registered.subset hregistered) (hmore.fates.subset hfate)
  rwa [sent_foldl]

/-- Whatever else waits, a request whose message the channel refuses is reported as refused and
leaves the table, the deadlines and the counters as they were; in every run that goes on from there
its key stays spent. -/
theorem refused_run {β : Type} (config : Config) (now : Nat) (before after : List Move)
    (publish : Message → Except Fault β) (request : Request) (timeout : Nat) {fault : Fault}
    (hpublish : publish ((run config now before).correlator.message
      (nthKey (before.countP Move.isEnter)) request (run config now before).now) = .error fault)
    (hsent : before.countP Move.isEnter + 1 + after.countP Move.isEnter < 2 ^ 64) :
    (run config now before).correlator.Refused request fault
        ((run config now before).correlator.send (run config now before).now publish request
          timeout) ∧
      ((run config now before).refuse request timeout).correlator =
        ((run config now before).correlator.send (run config now before).now publish request
          timeout).2 ∧
      (after.foldl Ledger.step ((run config now before).refuse request timeout)).Spent
        (nthKey (before.countP Move.isEnter)) ⟨request, timeout⟩ := by
  have hcount : (run config now before).correlator.sent = before.countP Move.isEnter :=
    (sent_foldl _ _).trans (Nat.zero_add _)
  have hsound : (run config now before).Sound := sound_run config now (by omega)
  rw [← hcount] at hpublish hsent ⊢
  obtain ⟨hrefused, hcorrelator⟩ := hsound.refused (by omega) timeout hpublish
  exact ⟨hrefused, hcorrelator, hsound.spent_of_refuse request timeout after hsent⟩

/-- A request of the same job to the same device, with the same deadline as the refused one. -/
def companion : Request := ⟨"edge-2", "status", [], some 4⟩

/-- It waits already, and has its reply on the way. -/
def underway : List Move := [.enter companion (Nanos.ofMillis 5), .verdict 1 true]

/-- A link that finds every message too long. -/
def tooLong (_ : Message) : Except Fault Unit := .error (.codec (.frameTooLarge 5000000))

/-- The request is sent once more and taken, a reply comes for the refused one, and the supervisor
runs at the deadline of all three. -/
def onward : List Move :=
  [.enter companion (Nanos.ofMillis 5), .verdict 3 true, .message reply,
    .pass (Nanos.ofMillis 10), .fire]

/-- A request with too long a payload is refused while two others wait, and its key is spent in all
that follows. -/
theorem refused_run_underway :
    tooLong ((run .standard 0 underway).correlator.message (nthKey (underway.countP Move.isEnter))
        companion (run .standard 0 underway).now) = .error (.codec (.frameTooLarge 5000000)) ∧
      underway.countP Move.isEnter + 1 + onward.countP Move.isEnter < 2 ^ 64 ∧
      ((run .standard 0 underway).correlator.send 0 tooLong companion (Nanos.ofMillis 5)).1 =
        .error (.channelUnavailable "fleet/edge-2/cmd/status"
          "Codec error: Frame too large: 5000000 bytes (max: 4194304)") ∧
      (onward.foldl Ledger.step ((run .standard 0 underway).refuse companion
        (Nanos.ofMillis 5))).fates = [(2, .withdrawn), (1, .timedOut), (3, .timedOut)] ∧
      (onward.foldl Ledger.step ((run .standard 0 underway).refuse companion
        (Nanos.ofMillis 5))).Spent 2 ⟨companion, Nanos.ofMillis 5⟩ := by
  have hsent : underway.countP Move.isEnter + 1 + onward.countP Move.isEnter < 2 ^ 64 := by decide
  obtain ⟨hrefused, -, hspent⟩ := refused_run .standard 0 underway onward tooLong companion
    (Nanos.ofMillis 5) rfl hsent
  refine ⟨rfl, hsent, ?_, by decide +kernel, hspent⟩
  rcases hrefused.told with ⟨topic, reason, hchannel, -⟩ | ⟨-, htold⟩
  · cases hchannel
  · refine htold.trans ?_
    decide +kernel

end Ledger

end Flotilla
