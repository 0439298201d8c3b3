import Flotilla.Proofs.Requests.Handles
import Flotilla.Proofs.Requests.Service
import Flotilla.Proofs.Rounding

/-!
# The race for a request

A request that waits is settled by whatever comes first: a reply on its topic, the supervisor at
its deadline or later, somebody who calls it off, or the end of the channel. `Ledger.ends?` says of
every move whether it ends a request, and how; a move that does not leaves the request waiting until
the same deadline (`Ledger.Waits.step`). So a reply in time wins whatever else goes on, a request
without one times out, but never early, and what comes for it later is only counted.
-/

namespace Flotilla

namespace Correlator

/-- A message takes a request out of the table exactly if it has its key and comes on the topic of
its reply. -/
theorem get?_pending_onMessage {c : Correlator} {key : CorrelationKey} {request : Pending}
    (h : c.pending.get? key = some request) (hkey : key ≠ 0) (now : Nat) (m : Message) :
    (c.onMessage now m).pending.get? key =
      if m.correlationId = key ∧ m.topic = request.replyTopic then none else some request := by
  by_cases hm : m.correlationId = key
  · subst hm
    rcases c.onMessage_cases now m with
      ⟨hzero, -⟩ | ⟨-, hn, -⟩ | ⟨other, -, hp, ⟨htopic, he⟩ | ⟨htopic, he⟩⟩
    · exact absurd hzero hkey
    · rw [hn] at h
      cases h
    · cases hp.symm.trans h
      rw [he, h, if_neg fun hboth => htopic hboth.2]
    · cases hp.symm.trans h
      rw [he, if_pos ⟨rfl, htopic⟩]
      exact (Table.get?_erase c.pending _ _).trans (if_pos rfl)
  · rw [if_neg fun hboth => hm hboth.1]
    rcases c.onMessage_cases now m with
      ⟨-, he⟩ | ⟨-, -, he⟩ | ⟨other, -, -, ⟨-, he⟩ | ⟨-, he⟩⟩ <;> rw [he]
    · exact h
    · exact h
    · exact h
    · exact (Table.get?_erase c.pending m.correlationId key).trans ((if_neg hm).trans h)

end Correlator

namespace Ledger

variable {l : Ledger} {key : CorrelationKey} {request : Pending} {deadline : Nat}

/-- A request waits until a deadline. -/
structure Waits (l : Ledger) (key : CorrelationKey) (request : Pending) (deadline : Nat) :
    Prop where
  pending : l.correlator.pending.get? key = some request
  deadline : l.correlator.supervisor.queue.deadline? key = some deadline

/-- How a move ends a request that waits until a deadline, if it does. -/
def ends? (l : Ledger) (key : CorrelationKey) (request : Pending) (deadline : Nat) :
    Move → Option Fate
  | .message m =>
    if m.correlationId = key ∧ m.topic = request.replyTopic then some (.answered m l.now) else none
  | .fire => if deadline ≤ l.now then some .timedOut else none
  | .cancel k => if k = key then some .cancelled else none
  | .cancelOwnedBy job => if request.owner = some job then some .cancelled else none
  | .close => some .tornDown
  | .verdict k taken =>
    if k = key ∧ taken = false ∧ l.awaitsVerdict key = true then some .withdrawn else none
  | .enter .. | .pass _ => none

/-- A request has come to a fate or, without one, waits until its deadline. -/
def Stood (l : Ledger) (key : CorrelationKey) (request : Pending) (deadline : Nat) :
    Option Fate → Prop
  | none => l.Waits key request deadline
  | some fate => (key, fate) ∈ l.fates

/-- No request waits under key zero. -/
theorem Waits.key_ne_zero (hw : l.Waits key request deadline) (h : l.Sound)
    (hsent : l.correlator.sent < 2 ^ 64) : key ≠ 0 := by
  refine h.key_ne_zero hsent (h.classes.subset (List.mem_append_left _ ?_))
  rw [Table.mem_keys_iff, Table.contains, hw.pending]
  rfl

/-- An operation that takes a request out under a condition, and moves no deadline. -/
theorem Waits.leave (hw : l.Waits key request deadline) {d : Correlator} {fate : Fate} {p : Prop}
    [Decidable p] (hr : l.correlator.Retains d)
    (hget : d.pending.get? key = if p then none else some request) :
    (l.leave fate d).Stood key request deadline (if p then some fate else none) := by
  by_cases hp : p
  · rw [if_pos hp] at hget ⊢
    refine List.mem_append_right _ (List.mem_map_of_mem (f := (·, fate)) (mem_leavers.2 ?_))
    rw [Table.contains, Table.contains, hget, hw.pending]
    exact ⟨rfl, Bool.false_ne_true⟩
  · rw [if_neg hp] at hget ⊢
    exact ⟨hget, (hr key request hget).2.trans hw.deadline⟩

/-- A move ends a request that waits in the way that it has for it, or the request waits on. -/
theorem Waits.step (hw : l.Waits key request deadline) (h : l.Sound) (move : Move)
    (hsent : (l.step move).correlator.sent < 2 ^ 64) :
    (l.step move).Stood key request deadline (l.ends? key request deadline move) := by
  rw [sent_step] at hsent
  have hkey : key ≠ 0 := hw.key_ne_zero h (by omega)
  cases move with
  | enter sent timeout =>
    obtain ⟨handle, d, he, hentered⟩ := h.enter_eq_ok hsent sent timeout
    have hne : handle.key ≠ key := by
      rintro rfl
      cases hentered.fresh.symm.trans hw.pending
    rw [Ledger.step, he]
    refine ⟨?_, ?_⟩
    · exact (congrArg (Table.get? · key) hentered.pending).trans
        ((Table.get?_set_ne _ _ hne).trans hw.pending)
    · exact (hentered.deadline? key).trans ((if_neg hne).trans hw.deadline)
  | verdict k taken =>
    rw [Ledger.step, ends?]
    by_cases hk : l.awaitsVerdict k = true
    · rw [if_pos hk]
      have hjudged : Waits { l with verdicts := l.verdicts ++ [(k, taken)] } key request deadline :=
        ⟨hw.pending, hw.deadline⟩
      -- a verdict ends the request only if it is its own and the message was refused
      cases taken with
      | true =>
        have hnot : ¬(k = key ∧ true = false ∧ l.awaitsVerdict key = true) :=
          fun hends => Bool.false_ne_true hends.2.1.symm
        rw [if_pos rfl, if_neg hnot]
        exact hjudged
      | false =>
        refine hjudged.leave (Correlator.retains_drop _ k) ?_
        refine (Table.get?_erase l.correlator.pending k key).trans ?_
        rw [hw.pending]
        exact if_congr ⟨fun hkey => ⟨hkey, rfl, hkey ▸ hk⟩, And.left⟩ rfl rfl
    · have hnot : ¬(k = key ∧ taken = false ∧ l.awaitsVerdict key = true) :=
        fun hends => hk (hends.1 ▸ hends.2.2)
      rw [if_neg hk, if_neg hnot]
      exact hw
  | message m =>
    exact hw.leave (Correlator.retains_onMessage _ _ m)
      (Correlator.get?_pending_onMessage hw.pending hkey _ m)
  | cancel k =>
    refine hw.leave (Correlator.retains_cancel _ k) ?_
    rw [Correlator.get?_pending_cancel, hw.pending]
  | cancelOwnedBy job =>
    refine hw.leave (Correlator.retains_cancelOwnedBy _ job) ?_
    rw [Correlator.get?_pending_cancelOwnedBy, hw.pending]
    exact if_congr (Correlator.mem_keysOwnedBy_iff hw.pending job) rfl rfl
  | close =>
    refine hw.leave (p := True) (Correlator.retains_close _) ?_
    rw [if_pos trivial, Table.get?, Correlator.pending_close]
    rfl
  | fire =>
    refine hw.leave (h.aligned.retains_pollDeadlines _) ?_
    rw [h.aligned.get?_pending_pollDeadlines, hw.deadline, hw.pending]
    simp only [Option.some.injEq, exists_eq_left']
  | pass span => exact ⟨hw.pending, hw.deadline⟩

/-- A request waits through all of these moves, or the first of them that could end it has done
so. -/
theorem Waits.foldl (hw : l.Waits key request deadline) (h : l.Sound) (moves : List Move)
    (hsent : l.correlator.sent + moves.countP Move.isEnter < 2 ^ 64) :
    (moves.foldl Ledger.step l).Waits key request deadline ∨
      ∃ earlier move later fate, moves = earlier ++ move :: later ∧
        (earlier.foldl Ledger.step l).ends? key request deadline move = some fate ∧
        (key, fate) ∈ (moves.foldl Ledger.step l).fates := by
  induction moves generalizing l with
  | nil => exact Or.inl hw
  | cons move moves ih =>
    rw [List.countP_cons] at hsent
    have hcount := sent_step l move
    have hbound : (l.step move).correlator.sent < 2 ^ 64 := by omega
    have hstood := hw.step h move hbound
    -- the first move that ends the request settles it: a fate that is noted stays noted
    cases hends : l.ends? key request deadline move with
    | some fate =>
      rw [hends] at hstood
      exact Or.inr ⟨[], move, moves, fate, rfl, hends,
        (extends_foldl (l.step move) moves).fates.subset hstood⟩
    | none =>
      rw [hends] at hstood
      rcases ih hstood (h.step move hbound) (by omega) with
        hwaits | ⟨earlier, last, later, fate, rfl, hlast, hfate⟩
      · exact Or.inl hwaits
      · exact Or.inr ⟨move :: earlier, last, later, fate, rfl, hlast, hfate⟩

/-- A reply to a request comes in. -/
def Move.Answers (key : CorrelationKey) (topic : String) : Move → Prop
  | .message m => m.correlationId = key ∧ m.topic = topic
  | _ => False

/-- A request is called off: it alone, with the others of its owner, or with the channel. -/
def Move.CallsOff (key : CorrelationKey) (owner : Option JobId) : Move → Prop
  | .cancel k => k = key
  | .cancelOwnedBy job => owner = some job
  | .close => True
  | _ => False

instance (key : CorrelationKey) (topic : String) : DecidablePred (Move.Answers key topic)
  | .message m => inferInstanceAs (Decidable (m.correlationId = key ∧ m.topic = topic))
  | .enter .. | .verdict .. | .cancel _ | .cancelOwnedBy _ | .close | .fire | .pass _ => .isFalse id

instance (key : CorrelationKey) (owner : Option JobId) : DecidablePred (Move.CallsOff key owner)
  | .cancel k => inferInstanceAs (Decidable (k = key))
  | .cancelOwnedBy job => inferInstanceAs (Decidable (owner = some job))
  | .close => .isTrue trivial
  | .enter .. | .verdict .. | .message _ | .fire | .pass _ => .isFalse id

/-- While these moves are made no reply to a request comes in, nobody calls it off, and the channel
does not refuse its message. -/
structure Undisturbed (l : Ledger) (key : CorrelationKey) (request : Pending)
    (moves : List Move) : Prop where
  unanswered : ∀ move ∈ moves, ¬move.Answers key request.replyTopic
  wanted : ∀ move ∈ moves, ¬move.CallsOff key request.owner
  unrefused : (key, false) ∉ (moves.foldl Ledger.step l).verdicts

/-- What ends a request is a reply, somebody who calls it off, the channel that refuses its message,
or its deadline. -/
theorem ends?_cases {move : Move} {fate : Fate}
    (h : l.ends? key request deadline move = some fate) :
    move.Answers key request.replyTopic ∨ move.CallsOff key request.owner ∨
      (key, false) ∈ (l.step move).verdicts ∨ fate = .timedOut := by
  cases move with
  | message m =>
    rw [ends?, Option.ite_none_right_eq_some] at h
    exact Or.inl h.1
  | cancel k =>
    rw [ends?, Option.ite_none_right_eq_some] at h
    exact Or.inr (Or.inl h.1)
  | cancelOwnedBy job =>
    rw [ends?, Option.ite_none_right_eq_some] at h
    exact Or.inr (Or.inl h.1)
  | close => exact Or.inr (Or.inl trivial)
  | verdict k taken =>
    rw [ends?, Option.ite_none_right_eq_some] at h
    obtain ⟨⟨rfl, rfl, hawaits⟩, -⟩ := h
    rw [step, if_pos hawaits]
    exact Or.inr (Or.inr (Or.inl (List.mem_append_right _ (List.mem_singleton_self _))))
  | fire =>
    rw [ends?, Option.ite_none_right_eq_some, Option.some.injEq] at h
    exact Or.inr (Or.inr (Or.inr h.2.symm))
  | enter | pass => cases h

/-- Only a deadline that has come lets a request time out. -/
theorem le_of_ends? {move : Move}
    (h : l.ends? key request deadline move = some .timedOut) : deadline ≤ l.now := by
  cases move with
  | fire =>
    rw [ends?, Option.ite_none_right_eq_some] at h
    exact h.1
  | message _ | cancel _ | cancelOwnedBy _ | verdict _ _ =>
    rw [ends?, Option.ite_none_right_eq_some] at h
    cases h.2
  | close | enter | pass => cases h

section Run

variable {moves : List Move}

/-- A request has not timed out before its deadline. -/
theorem Waits.le_of_timedOut (hw : l.Waits key request deadline) (h : l.Sound)
    (hsent : l.correlator.sent + moves.countP Move.isEnter < 2 ^ 64)
    (htimedOut : (key, .timedOut) ∈ (moves.foldl Ledger.step l).fates) :
    deadline ≤ (moves.foldl Ledger.step l).now := by
  have hsound := h.foldl moves hsent
  have hbound : (moves.foldl Ledger.step l).correlator.sent < 2 ^ 64 := by rwa [sent_foldl]
  rcases hw.foldl h moves hsent with hwaits | ⟨earlier, move, later, fate, rfl, hends, hfate⟩
  · have hgone := hsound.get?_eq_none_of_fate hbound
      (List.mem_map_of_mem (f := Prod.fst) htimedOut)
    cases hgone.symm.trans hwaits.pending
  · obtain rfl := hsound.fate_unique hbound hfate htimedOut
    rw [List.foldl_append]
    exact Nat.le_trans (le_of_ends? hends) (extends_foldl _ _).now_le

/-- A request that is left undisturbed waits on, or has timed out at its deadline. -/
theorem Waits.undisturbed (hw : l.Waits key request deadline) (h : l.Sound)
    (hsent : l.correlator.sent + moves.countP Move.isEnter < 2 ^ 64)
    (hu : l.Undisturbed key request moves) :
    (moves.foldl Ledger.step l).Waits key request deadline ∨
      (key, .timedOut) ∈ (moves.foldl Ledger.step l).fates := by
  rcases hw.foldl h moves hsent with hwaits | ⟨earlier, move, later, fate, rfl, hends, hfate⟩
  · exact Or.inl hwaits
  · have hmem : move ∈ earlier ++ move :: later :=
      List.mem_append_right _ List.mem_cons_self
    rcases ends?_cases hends with hanswers | hcalls | hrefused | rfl
    · exact absurd hanswers (hu.unanswered move hmem)
    · exact absurd hcalls (hu.wanted move hmem)
    · refine absurd ?_ hu.unrefused
      rw [List.foldl_append]
      exact (extends_foldl _ later).verdicts.subset hrefused
    · exact Or.inr hfate

/-- What a request comes to that has ended. -/
theorem Waits.outcome?_of_fate (hw : l.Waits key request deadline) (h : l.Sound)
    (hsent : l.correlator.sent + moves.countP Move.isEnter < 2 ^ 64) {fate : Fate}
    (hfate : (key, fate) ∈ (moves.foldl Ledger.step l).fates) :
    (moves.foldl Ledger.step l).correlator.outcome? key = fate.outcome? key request := by
  obtain ⟨sent, hkey, rfl⟩ := h.waiting key request hw.pending
  have hbound : (moves.foldl Ledger.step l).correlator.sent < 2 ^ 64 := by rwa [sent_foldl]
  have hlater := (l.extends_foldl moves).lookup_registered hkey
  rw [(h.foldl moves hsent).outcome_of_fate hbound hlater hfate, config_foldl]

/-- A request has only timed out if its fate says so. -/
theorem Sound.timedOut_of_outcome? (h : l.Sound) {timeout : Nat}
    (hout : l.correlator.outcome? key = some (.error (.requestTimeout key timeout))) :
    (key, .timedOut) ∈ l.fates := by
  rw [h.outcome, notedOutcome?, Option.bind_eq_some_iff] at hout
  obtain ⟨fate, hfate, hout⟩ := hout
  obtain ⟨sent, -, hout⟩ := Option.bind_eq_some_iff.1 hout
  cases fate with
  | timedOut => exact Table.mem_of_lookup hfate
  | answered | cancelled | tornDown | withdrawn => cases hout

end Run

variable {earlier later : List Move}

/-- The first reply ends a request that has been left undisturbed until then, if it comes before the
deadline. -/
theorem Waits.answered (hw : l.Waits key request deadline) (h : l.Sound) {m : Message}
    (hsent : l.correlator.sent + (earlier ++ .message m :: later).countP Move.isEnter < 2 ^ 64)
    (hu : l.Undisturbed key request earlier) (hm : m.correlationId = key)
    (htopic : m.topic = request.replyTopic)
    (hearly : (earlier.foldl Ledger.step l).now < deadline) :
    (key, .answered m (earlier.foldl Ledger.step l).now) ∈
      ((earlier ++ .message m :: later).foldl Ledger.step l).fates := by
  rw [List.countP_append] at hsent
  have hbefore : l.correlator.sent + earlier.countP Move.isEnter < 2 ^ 64 := by omega
  have hsound := h.foldl earlier hbefore
  -- the deadline is still to come, so the request cannot have timed out either
  have hwaits : (earlier.foldl Ledger.step l).Waits key request deadline :=
    (hw.undisturbed h hbefore hu).resolve_right fun htimedOut =>
      absurd (hw.le_of_timedOut h hbefore htimedOut) (Nat.not_le.2 hearly)
  have hstood := hwaits.step hsound (.message m) (by rwa [sent_step, sent_foldl])
  rw [ends?, if_pos ⟨hm, htopic⟩] at hstood
  rw [List.foldl_append]
  exact (extends_foldl _ later).fates.subset hstood

/-- The supervisor ends a request that has been left undisturbed until then, if its deadline has
come. -/
theorem Waits.timedOut (hw : l.Waits key request deadline) (h : l.Sound)
    (hsent : l.correlator.sent + (earlier ++ .fire :: later).countP Move.isEnter < 2 ^ 64)
    (hu : l.Undisturbed key request earlier)
    (hlate : deadline ≤ (earlier.foldl Ledger.step l).now) :
    (key, .timedOut) ∈ ((earlier ++ .fire :: later).foldl Ledger.step l).fates := by
  rw [List.countP_append] at hsent
  have hbefore : l.correlator.sent + earlier.countP Move.isEnter < 2 ^ 64 := by omega
  rw [List.foldl_append]
  refine (extends_foldl _ later).fates.subset ?_
  rcases hw.undisturbed h hbefore hu with hwaits | htimedOut
  · have hstood := hwaits.step (h.foldl earlier hbefore) .fire (by rwa [sent_step, sent_foldl])
    rwa [ends?, if_pos hlate] at hstood
  · exact (extends_step _ .fire).fates.subset htimedOut

/-- A message for which nothing waits has been counted. -/
def discard (l : Ledger) : Ledger :=
  { l with correlator := { l.correlator with
      tally := { l.correlator.tally with discarded := l.correlator.tally.discarded + 1 } } }

/-- A message with the key of a request that has ended is only counted. -/
theorem Sound.step_message_of_fate (h : l.Sound) (hsent : l.correlator.sent < 2 ^ 64) {fate : Fate}
    (hfate : (key, fate) ∈ l.fates) {m : Message} (hm : m.correlationId = key) :
    l.step (.message m) = l.discard := by
  have hfated : key ∈ l.fates.map Prod.fst := List.mem_map_of_mem (f := Prod.fst) hfate
  have hgone := h.get?_eq_none_of_fate hsent hfated
  have hkey := h.key_ne_zero hsent (h.classes.subset (List.mem_append_right _ hfated))
  subst hm
  rcases l.correlator.onMessage_cases l.now m with
    ⟨hzero, -⟩ | ⟨-, -, he⟩ | ⟨request, -, hpending, -⟩
  · exact absurd hzero hkey
  · rw [Ledger.step, he]
    exact leave_of_pending_eq rfl
  · cases hgone.symm.trans hpending

/-- The books after a request has been sent and these moves were made. -/
def afterSending (l : Ledger) (request : Request) (timeout : Nat) (moves : List Move) : Ledger :=
  moves.foldl Ledger.step (l.step (.enter request timeout))

/-- A request that is sent in the middle of a run, with what comes after it, is a run. -/
theorem afterSending_run (config : Config) (now : Nat) (before : List Move) (request : Request)
    (timeout : Nat) (moves : List Move) :
    (run config now before).afterSending request timeout moves =
      run config now (before ++ .enter request timeout :: moves) := by
  rw [run, run, afterSending, List.foldl_append, List.foldl_cons]

/-- How it ends for a request that is sent now and given this handle, when these moves are made
afterwards. -/
structure Raced (l : Ledger) (request : Request) (timeout : Nat) (handle : Handle)
    (moves : List Move) : Prop where
  /-- It does not time out early. -/
  notEarly :
    (l.afterSending request timeout moves).correlator.outcome? handle.key =
        some (.error (.requestTimeout handle.key timeout)) →
      l.now + min timeout maxTimeout ≤ (l.afterSending request timeout moves).now
  /-- The first reply is what it comes to, if it comes in before the deadline and nothing else has
  ended the request until then; it never times out. -/
  answered : ∀ earlier m later, moves = earlier ++ .message m :: later →
    (l.step (.enter request timeout)).Undisturbed handle.key
      (Correlator.entryFor l.correlator.config request timeout) earlier →
    m.correlationId = handle.key → m.topic = l.correlator.config.replyTopic request.target →
    (l.afterSending request timeout earlier).now < handle.deadline →
    (l.afterSending request timeout moves).correlator.outcome? handle.key =
        some (.ok ⟨handle.key, m.topic, m.sender, m.payload,
          (l.afterSending request timeout earlier).now⟩) ∧
      (handle.key, .timedOut) ∉ (l.afterSending request timeout moves).fates ∧
      (l.afterSending request timeout moves).correlator.supervisor.queue.deadline? handle.key = none
  /-- It times out once the supervisor runs at its deadline or later, if nothing has ended it
  until then, and a message with its key is only counted from then on. -/
  timedOut : ∀ earlier later, moves = earlier ++ .fire :: later →
    (l.step (.enter request timeout)).Undisturbed handle.key
      (Correlator.entryFor l.correlator.config request timeout) earlier →
    handle.deadline ≤ (l.afterSending request timeout earlier).now →
    (l.afterSending request timeout moves).correlator.outcome? handle.key =
        some (.error (.requestTimeout handle.key timeout)) ∧
      ∀ m, m.correlationId = handle.key →
        (l.afterSending request timeout moves).step (.message m) =
          (l.afterSending request timeout moves).discard

/-- A request that has just been sent waits until the deadline of its handle, which is not
early. -/
theorem Sound.waits_enter (h : l.Sound) (hsent : l.correlator.sent + 1 < 2 ^ 64)
    (request : Request) (timeout : Nat) :
    ∃ handle, (l.correlator.enter l.now request timeout).1 = .ok handle ∧
      l.now + min timeout maxTimeout ≤ handle.deadline ∧
      (l.step (.enter request timeout)).Waits handle.key
        (Correlator.entryFor l.correlator.config request timeout) handle.deadline := by
  obtain ⟨handle, d, he, hentered⟩ := h.enter_eq_ok hsent request timeout
  refine ⟨handle, congrArg Prod.fst he, ?_, ?_⟩
  · rw [Correlator.deadline_of_enter he]
    exact Supervisor.le_deadlineAfter _ _ _
  · rw [Ledger.step, he]
    refine ⟨?_, ?_⟩
    · exact (congrArg (Table.get? · handle.key) hentered.pending).trans
        (Table.get?_set_self _ _ _)
    · exact (hentered.deadline? handle.key).trans (if_pos rfl)

/-- In a sound ledger, whatever comes first after a request is sent decides it. -/
theorem Sound.raced (h : l.Sound) {request : Request} {timeout : Nat} {moves : List Move}
    (hsent : l.correlator.sent + 1 + moves.countP Move.isEnter < 2 ^ 64) :
    ∃ handle, (l.correlator.enter l.now request timeout).1 = .ok handle ∧
      l.Raced request timeout handle moves := by
  obtain ⟨handle, he, hdeadline, hw⟩ := h.waits_enter (by omega) request timeout
  refine ⟨handle, he, ?_⟩
  have hcount := (l.sent_enter request timeout).2
  rw [← hcount] at hsent
  have hentered := h.step (.enter request timeout) (by omega)
  have hsound := hentered.foldl moves hsent
  have hbound : (l.afterSending request timeout moves).correlator.sent < 2 ^ 64 := by
    rwa [afterSending, sent_foldl]
  refine ⟨?_, ?_, ?_⟩
  · intro hout
    have htimedOut := hsound.timedOut_of_outcome? hout
    exact Nat.le_trans hdeadline (hw.le_of_timedOut hentered hsent htimedOut)
  · rintro earlier m later rfl hu hm htopic hearly
    have hfate := hw.answered hentered hsent hu hm htopic hearly
    refine ⟨hw.outcome?_of_fate hentered hsent hfate, ?_, ?_⟩
    · intro htimedOut
      cases hsound.fate_unique hbound hfate htimedOut
    · exact (hsound.aligned.deadline?_eq_none_iff _).2
        (hsound.get?_eq_none_of_fate hbound (List.mem_map_of_mem (f := Prod.fst) hfate))
  · rintro earlier later rfl hu hlate
    have hfate := hw.timedOut hentered hsent hu hlate
    exact ⟨hw.outcome?_of_fate hentered hsent hfate,
      fun m hm => hsound.step_message_of_fate hbound hfate hm⟩

/-- In every run with less than `2 ^ 64` requests each of them ends as the race says: by the first
reply before its deadline, or else at its deadline, and never earlier. -/
theorem raced_run (config : Config) (now : Nat) (before : List Move) (request : Request)
    (timeout : Nat) (moves : List Move)
    (hsent : (before ++ .enter request timeout :: moves).countP Move.isEnter < 2 ^ 64) :
    ∃ handle, ((run config now before).correlator.enter (run config now before).now request
        timeout).1 = .ok handle ∧
      (run config now before).Raced request timeout handle moves := by
  rw [List.countP_append, List.countP_cons, Move.isEnter, if_pos rfl] at hsent
  have hcount : (run config now before).correlator.sent = before.countP Move.isEnter :=
    (sent_foldl _ _).trans (Nat.zero_add _)
  exact (sound_run config now (by omega)).raced (by omega)

/-- Another request, which is still waited for when the race begins. -/
def crowd : List Move := [.enter ⟨"edge-1", "status", [], none⟩ (Nanos.ofSeconds 1)]

/-- The request for which the race is run; with a tick of 10 ms its deadline is at 10 ms. -/
def contender : Request := ⟨"edge-2", "status", [], some 4⟩

def reply : Message := ⟨"fleet/edge-2/reply", 2, 0, [7], "edge-2"⟩

/-- A message on a wrong topic, a call for another job, and the end of the time that was asked for
do not keep the reply from winning. -/
def untilReply : List Move :=
  [.verdict 2 true, .message ⟨"fleet/edge-1/reply", 2, 0, [9], "edge-1"⟩, .cancelOwnedBy 5,
    .pass (Nanos.ofMillis 9), .fire]

/-- The reply comes before the supervisor runs again. -/
def inTime : List Move := untilReply ++ .message reply :: [.pass 1, .fire]

/-- The supervisor runs at the deadline, before the reply comes. -/
def tooLate : List Move := (untilReply ++ [.pass (Nanos.ofMillis 1)]) ++ .fire :: [.message reply]

/-- The request is sent, and these moves are made. -/
def contest (moves : List Move) : List Move :=
  crowd ++ .enter contender (Nanos.ofMillis 5) :: moves

/-- The same reply comes once in time, and once after the deadline. -/
theorem raced_run_contender :
    (contest inTime).countP Move.isEnter < 2 ^ 64 ∧
      (contest tooLate).countP Move.isEnter < 2 ^ 64 ∧
      (run .standard 0 (contest inTime)).correlator.outcome? 2 =
        some (.ok ⟨2, "fleet/edge-2/reply", "edge-2", [7], Nanos.ofMillis 9⟩) ∧
      (run .standard 0 (contest tooLate)).correlator.outcome? 2 =
        some (.error (.requestTimeout 2 (Nanos.ofMillis 5))) := by
  have hin : (contest inTime).countP Move.isEnter < 2 ^ 64 := by decide
  have hlate : (contest tooLate).countP Move.isEnter < 2 ^ 64 := by decide
  have hhandle : ((run .standard 0 crowd).correlator.enter (run .standard 0 crowd).now contender
      (Nanos.ofMillis 5)).1 = .ok ⟨2, Nanos.ofMillis 10⟩ := by decide +kernel
  refine ⟨hin, hlate, ?_, ?_⟩
  · obtain ⟨handle, he, hraced⟩ := raced_run .standard 0 crowd contender (Nanos.ofMillis 5) inTime
      hin
    cases he.symm.trans hhandle
    have hundisturbed : ((run .standard 0 crowd).step
        (.enter contender (Nanos.ofMillis 5))).Undisturbed 2
          (Correlator.entryFor .standard contender (Nanos.ofMillis 5)) untilReply :=
      ⟨by decide +kernel, by decide +kernel, by decide +kernel⟩
    have hearly : ((run .standard 0 crowd).afterSending contender (Nanos.ofMillis 5)
        untilReply).now < Nanos.ofMillis 10 := by decide +kernel
    rw [contest, ← afterSending_run]
    refine (hraced.answered untilReply reply _ rfl hundisturbed rfl rfl hearly).1.trans ?_
    decide +kernel
  · obtain ⟨handle, he, hraced⟩ := raced_run .standard 0 crowd contender (Nanos.ofMillis 5) tooLate
      hlate
    cases he.symm.trans hhandle
    have hundisturbed : ((run .standard 0 crowd).step
        (.enter contender (Nanos.ofMillis 5))).Undisturbed 2
          (Correlator.entryFor .standard contender (Nanos.ofMillis 5))
            (untilReply ++ [.pass (Nanos.ofMillis 1)]) :=
      ⟨by decide +kernel, by decide +kernel, by decide +kernel⟩
    have hdeadline : Nanos.ofMillis 10 ≤ ((run .standard 0 crowd).afterSending contender
        (Nanos.ofMillis 5) (untilReply ++ [.pass (Nanos.ofMillis 1)])).now := by decide +kernel
    rw [contest, ← afterSending_run]
    exact (hraced.timedOut _ _ rfl hundisturbed hdeadline).1

end Ledger

end Flotilla
