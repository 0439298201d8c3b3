import Flotilla.Broker
import Flotilla.Proofs.Channels.Subscribing

/-!
# What a broker hands out

A broker takes messages and its delivery hands them out, and in between the delivery yields and is
woken, subscriptions come and go, messages are refused and the broker is closed, in any order
(`Broker.Run`). What is handed out is told by the history alone (`Broker.delivers_run`): the
messages that were taken, each once and in order, each to the subscriptions that are in force when
it is handed out and whose patterns cover its topic, from the oldest to the youngest.

Once the broker is closed everything is refused. But a delivery that is at work when the broker is
closed, as it is when the broker is closed by somebody whom it hands a message to, goes on with what
waits until it yields (`Broker.dispatched_after_close`). Only then nothing more is handed out.
-/

namespace Flotilla.Broker

open Subscriptions (Change HandedOut Reflects)

variable {α : Type}

/-- What can happen at a broker. -/
inductive Happening (α : Type) where
  /-- A message is taken. -/
  | accepted (m : Message)
  /-- A message is not taken. -/
  | refused (m : Message) (fault : Fault)
  /-- A subscription is made. -/
  | subscribed (s : Subscription α)
  /-- No subscription is made. -/
  | barred (pattern : String) (fault : Fault)
  /-- The subscription with this number is given up. -/
  | unsubscribed (id : Nat)
  /-- The broker is made available or not. -/
  | switched (available : Bool)
  /-- The broker is closed. -/
  | closed
  /-- The delivery is woken. -/
  | woken
  /-- A message is handed to subscriptions, in this order. -/
  | dispatched (m : Message) (recipients : List (Subscription α))
  /-- The delivery yields. -/
  | rested

/-- What has happened at a broker, the earliest first. -/
abbrev History (α : Type) := List (Happening α)

/-- A broker does something, or something is asked of it. -/
inductive Step : Broker α → Happening α → Broker α → Prop
  | publish {b b' : Broker α} {m : Message} (h : b.publish m = .ok b') : Step b (.accepted m) b'
  | refuse {b : Broker α} {m : Message} {fault : Fault} (h : b.publish m = .error fault) :
    Step b (.refused m fault) b
  | subscribe {b b' : Broker α} {pattern : String} {listener : α} {id : Nat}
    (h : b.subscribe pattern listener = .ok (id, b')) :
    Step b (.subscribed ⟨id, pattern, listener⟩) b'
  | bar {b : Broker α} {pattern : String} {listener : α} {fault : Fault}
    (h : b.subscribe pattern listener = .error fault) : Step b (.barred pattern fault) b
  | unsubscribe (b : Broker α) (id : Nat) : Step b (.unsubscribed id) (b.unsubscribe id)
  | setAvailable (b : Broker α) (available : Bool) :
    Step b (.switched available) (b.setAvailable available)
  | close (b : Broker α) : Step b .closed b.close
  | wake (b : Broker α) : Step b .woken b.wake
  | deliver {b b' : Broker α} {m : Message} {recipients : List (Subscription α)}
    (h : b.deliver? = some (m, recipients, b')) : Step b (.dispatched m recipients) b'
  | rest (b : Broker α) : Step b .rested b.rest

/-- What has happened at a new broker, and what has become of it. -/
inductive Run : History α → Broker α → Prop
  | start : Run [] .new
  | step {history : History α} {b b' : Broker α} {x : Happening α} (h : Run history b)
    (hstep : Step b x b') : Run (history ++ [x]) b'

namespace Happening

/-- The message that is taken. -/
def taken? : Happening α → Option Message
  | .accepted m => some m
  | _ => none

/-- The message that is handed out. -/
def handedOut? : Happening α → Option Message
  | .dispatched m _ => some m
  | _ => none

/-- The message that is handed to the subscription with this number. -/
def handedTo? (id : Nat) : Happening α → Option Message
  | .dispatched m recipients => if recipients.any (·.id = id) then some m else none
  | _ => none

/-- What happens to the subscriptions. -/
def change? : Happening α → Option (Change α)
  | .subscribed s => some (.made s)
  | .unsubscribed id => some (.givenUp id)
  | _ => none

end Happening

namespace History

/-- The messages that were taken. -/
def accepted (history : History α) : List Message := history.filterMap Happening.taken?

/-- The messages that were handed out. -/
def dispatched (history : History α) : List Message := history.filterMap Happening.handedOut?

/-- The messages that the subscription with this number has been handed. -/
def seenBy (id : Nat) (history : History α) : List Message :=
  history.filterMap (Happening.handedTo? id)

/-- What has happened to the subscriptions. -/
def changes (history : History α) : List (Change α) := history.filterMap Happening.change?

/-- The subscriptions that were made. -/
def made (history : History α) : List (Subscription α) := history.changes.filterMap Change.made?

private theorem changes_concat {history : History α} {x : Happening α} {change : Change α}
    (h : x.change? = some change) : changes (history ++ [x]) = history.changes ++ [change] :=
  filterMap_concat_of_some h

/-- The delivery was woken before the broker was closed, and has not yielded since. -/
def AtWork (history : History α) : Prop :=
  ∃ before after, history = before ++ .woken :: after ∧ .closed ∉ before ∧ .rested ∉ after

/-- The delivery is set to work by being woken on an open broker, and stays at work until it
yields. -/
theorem atWork_concat {history : History α} {x : Happening α} :
    AtWork (history ++ [x]) ↔
      (x = .woken ∧ .closed ∉ history) ∨ AtWork history ∧ x ≠ .rested := by
  constructor
  · rintro ⟨before, after, hsplit, hopen, hkept⟩
    rcases split_concat hsplit with ⟨rfl, rfl, -⟩ | ⟨rest, rfl, rfl⟩
    · exact Or.inl ⟨rfl, hopen⟩
    · rw [List.mem_append, not_or, List.mem_singleton] at hkept
      exact Or.inr ⟨⟨before, rest, rfl, hopen, hkept.1⟩, Ne.symm hkept.2⟩
  · rintro (⟨rfl, hopen⟩ | ⟨⟨before, after, rfl, hopen, hkept⟩, hne⟩)
    · exact ⟨history, [], rfl, hopen, List.not_mem_nil⟩
    · refine ⟨before, after ++ [x], by rw [List.append_assoc, List.cons_append], hopen, ?_⟩
      rw [List.mem_append, not_or, List.mem_singleton]
      exact ⟨hkept, Ne.symm hne⟩

/-- Only waking and yielding matter to whether the delivery is at work. -/
theorem atWork_concat_of_ne {history : History α} {x : Happening α} (hwoken : x ≠ .woken)
    (hrested : x ≠ .rested) : AtWork (history ++ [x]) ↔ AtWork history := by
  rw [atWork_concat, and_iff_left hrested, or_iff_right]
  exact fun hx => hwoken hx.1

/-- A subscription sees some of what is handed out, in that order. -/
theorem seenBy_sublist (id : Nat) (history : History α) :
    (seenBy id history).Sublist history.dispatched := by
  induction history with
  | nil => exact .slnil
  | cons x history ih =>
    cases x with
    | dispatched m recipients =>
      rw [seenBy, List.filterMap_cons, Happening.handedTo?]
      change List.Sublist _ (m :: dispatched history)
      split
      · exact ih.cons m
      · next hsome =>
        split at hsome
        · cases hsome
          exact ih.cons_cons m
        · cases hsome
    | _ => exact ih

end History

open History

/-- What has been handed out and what has become of the broker is as the history tells. -/
structure Delivers (history : History α) (b : Broker α) : Prop where
  /-- Each message goes to the subscriptions that are in force when it is handed out. -/
  handedOut : ∀ (before : History α) m recipients after,
    history = before ++ .dispatched m recipients :: after → HandedOut before.changes m recipients
  inOrder : history.dispatched <+: history.accepted
  /-- What was taken and not handed out waits, until the delivery of a closed broker yields. -/
  nothingLost : (.closed ∈ history → AtWork history) →
    history.accepted = history.dispatched ++ b.inbox
  seen : ∀ id, (seenBy id history).Sublist history.accepted
  numbers : history.made.map Subscription.id = List.range' 1 history.made.length
  refuses : .closed ∈ history →
    (∀ m, b.publish m = .error (.channelUnavailable m.topic "broker closed")) ∧
    ∀ pattern listener,
      b.subscribe pattern listener = .error (.channelUnavailable pattern "broker closed")
  /-- After the close a message is handed out only by a delivery that was at work then and has not
  yielded since. -/
  afterClose : ∀ before m recipients after, history = before ++ .dispatched m recipients :: after →
    .closed ∈ before → AtWork before
  /-- Such a delivery goes on as long as something waits, and any other has ended. -/
  goesOn_iff : .closed ∈ history → (b.deliver?.isSome = true ↔ AtWork history ∧ b.inbox ≠ [])

section

variable {b b' : Broker α} {m : Message} {pattern : String} {listener : α} {id : Nat}
  {recipients : List (Subscription α)}

/-- An abort changes nothing but what waits. -/
theorem abort_eq (b : Broker α) : ∃ inbox, b.abort = { b with inbox } := by
  unfold abort
  split
  · exact ⟨b.inbox, rfl⟩
  · exact ⟨[], rfl⟩

/-- A close leaves the subscriptions and the delivery as they are. -/
theorem close_eq (b : Broker α) :
    ∃ inbox available, b.close = { b with inbox, available, closed := true } := by
  unfold close
  split
  · next hclosed => exact ⟨b.inbox, b.available, by rw [← hclosed]⟩
  · obtain ⟨inbox, habort⟩ := abort_eq { b with closed := true, available := false }
    exact ⟨inbox, false, habort⟩

/-- A delivery that yields changes nothing but what waits. -/
theorem rest_eq (b : Broker α) : ∃ inbox, b.rest = { b with inbox, delivering := false } := by
  rw [rest]
  split
  · exact abort_eq { b with delivering := false }
  · exact ⟨b.inbox, rfl⟩

/-- The delivery of an open broker yields and leaves what waits for the next time. -/
theorem rest_of_open (h : b.closed = false) : b.rest = { b with delivering := false } := by
  rw [rest]
  exact if_neg (Bool.eq_false_iff.1 h)

/-- The delivery of a closed broker is not woken again. -/
theorem wake_of_closed (h : b.closed = true) : b.wake = b := if_pos h

/-- The delivery of an open broker is woken. -/
theorem wake_of_open (h : b.closed = false) : b.wake = { b with delivering := true } :=
  if_neg (Bool.eq_false_iff.1 h)

/-- Only an open broker takes a message, and it puts it behind those that wait. -/
theorem opened_of_publish (h : b.publish m = .ok b') :
    b.closed = false ∧ b' = { b with inbox := b.inbox ++ [m] } := by
  unfold publish at h
  split at h
  · cases h
  · next hclosed =>
    split at h
    · cases h
    · cases h
      exact ⟨Bool.eq_false_iff.2 hclosed, rfl⟩

/-- Only an open broker takes a subscription, and it gives it the next number. -/
theorem opened_of_subscribe (h : b.subscribe pattern listener = .ok (id, b')) :
    b.closed = false ∧ id = b.subscriptions.lastId + 1 ∧
      b' = { b with subscriptions := (b.subscriptions.add pattern listener).2 } := by
  unfold subscribe at h
  split at h
  · cases h
  · next hclosed =>
    cases h
    exact ⟨Bool.eq_false_iff.2 hclosed, rfl, rfl⟩

/-- A delivery that is at work hands out the first message that waits, to the subscriptions that
cover its topic. -/
theorem inbox_of_deliver? (h : b.deliver? = some (m, recipients, b')) :
    b.delivering = true ∧ ∃ rest, b.inbox = m :: rest ∧
      recipients = b.subscriptions.matching m.topic ∧ b' = { b with inbox := rest } := by
  unfold deliver? at h
  split at h
  · next hdelivering =>
    split at h
    · cases h
    · next m rest hinbox =>
      cases h
      exact ⟨hdelivering, rest, hinbox, rfl, rfl⟩
  · cases h

/-- A delivery goes on if it is at work and something waits. -/
theorem isSome_deliver?_iff :
    b.deliver?.isSome = true ↔ b.delivering = true ∧ b.inbox ≠ [] := by
  unfold deliver?
  split
  · next hdelivering => cases b.inbox <;> simp [hdelivering]
  · next hdelivering => simp [hdelivering]

/-- What a delivery does that has just been woken. -/
theorem inbox_of_wake (h : b.wake.deliver? = some (m, recipients, b')) :
    ∃ rest, b.inbox = m :: rest ∧ recipients = b.subscriptions.matching m.topic ∧
      b' = { b with inbox := rest, delivering := true } := by
  obtain ⟨hdelivering, rest, hinbox, hrecipients, hb'⟩ := inbox_of_deliver? h
  by_cases hclosed : b.closed = true
  · rw [wake_of_closed hclosed] at hdelivering hinbox hrecipients hb'
    rw [hdelivering] at hb'
    exact ⟨rest, hinbox, hrecipients, hb'⟩
  · rw [wake_of_open (Bool.eq_false_iff.2 hclosed)] at hinbox hrecipients hb'
    exact ⟨rest, hinbox, hrecipients, hb'⟩

/-- As long as a broker is open its delivery hands out what waits. -/
theorem deliver?_wake (hopen : b.closed = false) {rest : List Message}
    (hinbox : b.inbox = m :: rest) : b.wake.deliver? =
      some (m, b.subscriptions.matching m.topic, { b with inbox := rest, delivering := true }) := by
  rw [wake_of_open hopen, deliver?, hinbox]
  rfl

/-- Where nothing waits nothing is handed out. -/
theorem deliver?_wake_of_nil (hinbox : b.inbox = []) : b.wake.deliver? = none := by
  cases h : b.wake.deliver? with
  | none => rfl
  | some next =>
    obtain ⟨rest, hcons, -⟩ := inbox_of_wake h
    cases hinbox.symm.trans hcons

/-- A closed broker takes nothing. -/
theorem refuses_of_closed (h : b.closed = true) (m : Message) :
    b.publish m = .error (.channelUnavailable m.topic "broker closed") := by
  rw [publish, if_pos h]

/-- A closed broker takes no subscription. -/
theorem bars_of_closed (h : b.closed = true) (pattern : String) (listener : α) :
    b.subscribe pattern listener = .error (.channelUnavailable pattern "broker closed") := by
  rw [subscribe, if_pos h]

/-- A closed broker stays closed. -/
theorem Step.closed_of_closed {x : Happening α} (h : Step b x b') (hclosed : b.closed = true) :
    b'.closed = true := by
  cases h with
  | publish hpublish => cases (opened_of_publish hpublish).1.symm.trans hclosed
  | subscribe hsubscribe => cases (opened_of_subscribe hsubscribe).1.symm.trans hclosed
  | close =>
    obtain ⟨inbox, available, hb⟩ := b.close_eq
    rw [hb]
  | wake =>
    rw [wake_of_closed hclosed]
    exact hclosed
  | deliver hdeliver =>
    obtain ⟨-, rest, -, -, rfl⟩ := inbox_of_deliver? hdeliver
    exact hclosed
  | rest =>
    obtain ⟨inbox, hb⟩ := b.rest_eq
    rw [hb]
    exact hclosed
  | refuse | bar | unsubscribe | setAvailable => exact hclosed

end

/-- The messages that were taken are handed out one after the other, or wait, until the delivery of
a closed broker yields. -/
structure Queues (history : History α) (b : Broker α) : Prop where
  closed_iff : b.closed = true ↔ .closed ∈ history
  delivering_iff : b.delivering = true ↔ AtWork history
  inOrder : history.dispatched <+: history.accepted
  complete : (b.closed = true → b.delivering = true) →
    history.accepted = history.dispatched ++ b.inbox

variable {history : History α} {b b' : Broker α} {x : Happening α}

private theorem mail_concat (history : History α) {x : Happening α} (htaken : x.taken? = none)
    (hhanded : x.handedOut? = none) :
    accepted (history ++ [x]) = history.accepted ∧
      dispatched (history ++ [x]) = history.dispatched :=
  ⟨filterMap_concat_of_none htaken, filterMap_concat_of_none hhanded⟩

/-- What changes neither the mail nor who may send it nor the delivery leaves the queue as it is. -/
theorem Queues.beside (h : Queues history b) (hclosed : b'.closed = b.closed)
    (hdelivering : b'.delivering = b.delivering) (hinbox : b'.inbox = b.inbox)
    (htaken : x.taken? = none) (hhanded : x.handedOut? = none) (hopen : x ≠ .closed)
    (hwoken : x ≠ .woken) (hrested : x ≠ .rested) : Queues (history ++ [x]) b' := by
  obtain ⟨haccepted, hdispatched⟩ := mail_concat history htaken hhanded
  constructor
  · rw [hclosed, h.closed_iff, List.mem_append, List.mem_singleton, or_iff_left hopen.symm]
  · rw [hdelivering, h.delivering_iff, atWork_concat_of_ne hwoken hrested]
  · rw [haccepted, hdispatched]
    exact h.inOrder
  · rw [haccepted, hdispatched, hclosed, hdelivering, hinbox]
    exact h.complete

/-- A message that is taken joins those that wait. -/
theorem Queues.publish (h : Queues history b) (hopen : b.closed = false) (m : Message) :
    Queues (history ++ [.accepted m]) { b with inbox := b.inbox ++ [m] } := by
  have haccepted : accepted (history ++ [.accepted m]) = history.accepted ++ [m] :=
    filterMap_concat_of_some rfl
  have hdispatched : dispatched (history ++ [.accepted m]) = history.dispatched :=
    filterMap_concat_of_none rfl
  have hwork : AtWork (history ++ [.accepted m]) ↔ AtWork history :=
    atWork_concat_of_ne nofun nofun
  constructor
  · rw [List.mem_append, List.mem_singleton, or_iff_left nofun]
    exact h.closed_iff
  · exact h.delivering_iff.trans hwork.symm
  · rw [haccepted, hdispatched]
    exact h.inOrder.trans (List.prefix_append ..)
  · intro _
    have hcomplete := h.complete fun hclosed => nomatch hopen.symm.trans hclosed
    rw [haccepted, hdispatched, hcomplete, List.append_assoc]

/-- A close keeps what waits, as long as the delivery is at work. -/
theorem Queues.close (h : Queues history b) : Queues (history ++ [.closed]) b.close := by
  obtain ⟨haccepted, hdispatched⟩ := mail_concat history (x := .closed) rfl rfl
  have hwork : AtWork (history ++ [.closed]) ↔ AtWork history := atWork_concat_of_ne nofun nofun
  obtain ⟨inbox, available, hb⟩ := b.close_eq
  have hinbox (hdelivering : b.delivering = true) : b.close.inbox = b.inbox := by
    unfold Broker.close
    split
    · rfl
    · rw [abort, if_pos hdelivering]
  constructor
  · rw [hb]
    exact ⟨fun _ => List.mem_append_right _ (List.mem_singleton_self _), fun _ => rfl⟩
  · rw [hb]
    exact h.delivering_iff.trans hwork.symm
  · rw [haccepted, hdispatched]
    exact h.inOrder
  · intro hkept
    have hdelivering : b.delivering = true := by
      rw [hb] at hkept
      exact hkept rfl
    rw [haccepted, hdispatched, hinbox hdelivering]
    exact h.complete fun _ => hdelivering

/-- A delivery that is woken is at work, unless the broker was closed before. -/
theorem Queues.wake (h : Queues history b) : Queues (history ++ [.woken]) b.wake := by
  obtain ⟨haccepted, hdispatched⟩ := mail_concat history (x := .woken) rfl rfl
  have hmem : .closed ∈ history ++ [.woken] ↔ .closed ∈ history := by
    rw [List.mem_append, List.mem_singleton, or_iff_left nofun]
  have hwork : AtWork (history ++ [.woken]) ↔ .closed ∉ history ∨ AtWork history := by
    rw [atWork_concat]
    simp
  cases hclosed : b.closed with
  | true =>
    rw [wake_of_closed hclosed]
    have hin := h.closed_iff.1 hclosed
    refine ⟨?_, ?_, ?_, ?_⟩
    · rw [hmem, h.closed_iff]
    · rw [hwork, or_iff_right (not_not_intro hin), h.delivering_iff]
    · rw [haccepted, hdispatched]
      exact h.inOrder
    · rw [haccepted, hdispatched]
      exact h.complete
  | false =>
    rw [wake_of_open hclosed]
    have hout : .closed ∉ history := fun hin => nomatch hclosed.symm.trans (h.closed_iff.2 hin)
    refine ⟨?_, ?_, ?_, fun _ => ?_⟩
    · rw [hmem]
      exact h.closed_iff
    · rw [hwork]
      exact ⟨fun _ => Or.inl hout, fun _ => rfl⟩
    · rw [haccepted, hdispatched]
      exact h.inOrder
    · rw [haccepted, hdispatched]
      exact h.complete fun hclosed' => nomatch hclosed.symm.trans hclosed'

/-- A delivery that yields leaves what waits for the next time, unless the broker is closed. -/
theorem Queues.rest (h : Queues history b) : Queues (history ++ [.rested]) b.rest := by
  obtain ⟨haccepted, hdispatched⟩ := mail_concat history (x := .rested) rfl rfl
  obtain ⟨inbox, hb⟩ := b.rest_eq
  refine ⟨?_, ?_, ?_, fun hkept => ?_⟩
  · rw [hb, List.mem_append, List.mem_singleton, or_iff_left nofun]
    exact h.closed_iff
  · rw [hb, atWork_concat]
    exact iff_of_false Bool.false_ne_true (by simp)
  · rw [haccepted, hdispatched]
    exact h.inOrder
  · have hopen : b.closed = false := by
      rw [hb] at hkept
      exact Bool.eq_false_iff.2 fun hclosed => Bool.false_ne_true (hkept hclosed)
    rw [haccepted, hdispatched, rest_of_open hopen]
    exact h.complete fun hclosed => nomatch hopen.symm.trans hclosed

/-- The message that is handed out is the oldest of those that wait. -/
theorem Queues.deliver (h : Queues history b) {m : Message} {recipients : List (Subscription α)}
    {rest : List Message} (hdelivering : b.delivering = true) (hinbox : b.inbox = m :: rest) :
    Queues (history ++ [.dispatched m recipients]) { b with inbox := rest } := by
  have hcomplete : accepted (history ++ [.dispatched m recipients]) =
      dispatched (history ++ [.dispatched m recipients]) ++ rest := by
    have haccepted : accepted (history ++ [.dispatched m recipients]) = history.accepted :=
      filterMap_concat_of_none rfl
    have hdispatched : dispatched (history ++ [.dispatched m recipients]) =
        history.dispatched ++ [m] := filterMap_concat_of_some rfl
    rw [haccepted, hdispatched, h.complete fun _ => hdelivering, hinbox, List.append_assoc]
    rfl
  have hwork : AtWork (history ++ [.dispatched m recipients]) ↔ AtWork history :=
    atWork_concat_of_ne nofun nofun
  constructor
  · rw [List.mem_append, List.mem_singleton, or_iff_left nofun]
    exact h.closed_iff
  · exact h.delivering_iff.trans hwork.symm
  · exact hcomplete ▸ List.prefix_append ..
  · exact fun _ => hcomplete

/-- A step hands out nothing but the first message that waits. -/
theorem Queues.step (h : Queues history b) (hstep : Step b x b') : Queues (history ++ [x]) b' := by
  cases hstep with
  | publish hpublish =>
    obtain ⟨hopened, rfl⟩ := opened_of_publish hpublish
    exact h.publish hopened _
  | refuse => exact h.beside rfl rfl rfl rfl rfl nofun nofun nofun
  | subscribe hsubscribe =>
    obtain ⟨-, -, rfl⟩ := opened_of_subscribe hsubscribe
    exact h.beside rfl rfl rfl rfl rfl nofun nofun nofun
  | bar => exact h.beside rfl rfl rfl rfl rfl nofun nofun nofun
  | unsubscribe => exact h.beside rfl rfl rfl rfl rfl nofun nofun nofun
  | setAvailable => exact h.beside rfl rfl rfl rfl rfl nofun nofun nofun
  | close => exact h.close
  | wake => exact h.wake
  | deliver hdeliver =>
    obtain ⟨hdelivering, rest, hinbox, -, rfl⟩ := inbox_of_deliver? hdeliver
    exact h.deliver hdelivering hinbox
  | rest => exact h.rest

/-- Whatever leaves the subscriptions alone. -/
private theorem reflects_beside (h : Reflects history.changes b.subscriptions)
    (hsubscriptions : b'.subscriptions = b.subscriptions) (hchange : x.change? = none) :
    Reflects (changes (history ++ [x])) b'.subscriptions := by
  rw [hsubscriptions, changes, filterMap_concat_of_none hchange]
  exact h

/-- The subscriptions are told by the history. -/
theorem Step.reflects (hstep : Step b x b') (h : Reflects history.changes b.subscriptions) :
    Reflects (changes (history ++ [x])) b'.subscriptions := by
  cases hstep with
  | publish hpublish =>
    obtain ⟨-, rfl⟩ := opened_of_publish hpublish
    exact reflects_beside h rfl rfl
  | refuse => exact reflects_beside h rfl rfl
  | subscribe hsubscribe =>
    obtain ⟨-, rfl, rfl⟩ := opened_of_subscribe hsubscribe
    rw [changes_concat rfl]
    exact h.add _ _
  | bar => exact reflects_beside h rfl rfl
  | unsubscribe id =>
    rw [changes_concat rfl]
    exact h.remove id
  | setAvailable => exact reflects_beside h rfl rfl
  | close =>
    obtain ⟨inbox, available, hb⟩ := b.close_eq
    have hsame : b.close.subscriptions = b.subscriptions := by rw [hb]
    exact reflects_beside h hsame rfl
  | wake =>
    have hsame : b.wake.subscriptions = b.subscriptions := by
      rw [Broker.wake]
      split <;> rfl
    exact reflects_beside h hsame rfl
  | deliver hdeliver =>
    obtain ⟨-, rest, -, -, rfl⟩ := inbox_of_deliver? hdeliver
    exact reflects_beside h rfl rfl
  | rest =>
    obtain ⟨inbox, hb⟩ := b.rest_eq
    have hsame : b.rest.subscriptions = b.subscriptions := by rw [hb]
    exact reflects_beside h hsame rfl

/-- In any run, what was taken has been handed out or waits. -/
theorem Run.queues (h : Run history b) : Queues history b := by
  induction h with
  | start =>
    refine ⟨⟨nofun, nofun⟩, ⟨nofun, ?_⟩, List.prefix_rfl, fun _ => rfl⟩
    rintro ⟨before, after, hsplit, -⟩
    cases before <;> cases hsplit
  | step _ hstep ih => exact ih.step hstep

/-- In any run, the subscriptions in force are what the changes have made of them. -/
theorem Run.reflects (h : Run history b) : Reflects history.changes b.subscriptions := by
  induction h with
  | start => exact Subscriptions.reflects_empty
  | step _ hstep ih => exact hstep.reflects ih

/-- Whenever a message was handed out, it was by a delivery at work, and went to the subscriptions
that were in force then. -/
theorem Run.handedOut (h : Run history b) {before after : History α} {m : Message}
    {recipients : List (Subscription α)}
    (hsplit : history = before ++ .dispatched m recipients :: after) :
    AtWork before ∧ HandedOut before.changes m recipients := by
  induction h generalizing after with
  | start => cases before <;> cases hsplit
  | step hrun hstep ih =>
    rcases split_concat hsplit with ⟨rfl, rfl, -⟩ | ⟨rest, -, hbefore⟩
    · cases hstep with
      | deliver hdeliver =>
        obtain ⟨hdelivering, rest, -, rfl, -⟩ := inbox_of_deliver? hdeliver
        exact ⟨hrun.queues.delivering_iff.1 hdelivering, hrun.reflects.handedOut m⟩
    · exact ih hbefore

/-- Whatever is asked of a broker in whatever order, each message that is handed out goes exactly
once to each subscription in force that covers it, in the order of their numbers, which are never
given twice. Messages are handed out in the order in which they were taken, and none is left out or
comes again; what was refused is not among them. When the broker has been closed everything is
refused, available or not, and nothing is handed out but by a delivery that was at work at the close
and has not yielded since: it goes on with what waits. -/
theorem delivers_run (h : Run history b) : Delivers history b where
  handedOut before m recipients after hsplit := (h.handedOut hsplit).2
  inOrder := h.queues.inOrder
  nothingLost hkept := h.queues.complete fun hclosed =>
    h.queues.delivering_iff.2 (hkept (h.queues.closed_iff.1 hclosed))
  seen id := (seenBy_sublist id history).trans h.queues.inOrder.sublist
  numbers := h.reflects.numbers_eq
  refuses hmem :=
    have hclosed := h.queues.closed_iff.2 hmem
    ⟨refuses_of_closed hclosed, bars_of_closed hclosed⟩
  afterClose before m recipients after hsplit _ := (h.handedOut hsplit).1
  goesOn_iff _ := by rw [isSome_deliver?_iff, h.queues.delivering_iff]

/-- A message that comes in on a topic. -/
def note (topic : String) : Message := .new topic 0 [] 0

/-- Two listen, to replies and to everything. One message is taken before and one while the first
subscription is in force and two are refused, the second because the broker has been closed; the
last one that was taken is dropped by that. -/
def twoListeners : History String :=
  [.subscribed ⟨1, "fleet/+/reply", "replies"⟩, .accepted (note "fleet/a/reply"),
    .subscribed ⟨2, "#", "all"⟩, .switched false,
    .refused (note "a") (.channelUnavailable "a" "broker unavailable"), .switched true,
    .accepted (note "fleet/b/reply"), .woken,
    .dispatched (note "fleet/a/reply")
      [⟨1, "fleet/+/reply", "replies"⟩, ⟨2, "#", "all"⟩],
    .unsubscribed 1, .accepted (note "b"),
    .dispatched (note "fleet/b/reply") [⟨2, "#", "all"⟩], .rested, .closed, .switched true, .woken,
    .refused (note "c") (.channelUnavailable "c" "broker closed")]

/-- What has become of that broker. -/
def abandoned : Broker String := ⟨⟨2, [⟨2, "#", "all"⟩]⟩, [], true, true, false⟩

private theorem run_twoListeners : Run twoListeners abandoned :=
  Run.start.step (.subscribe rfl) |>.step (.publish rfl) |>.step (.subscribe rfl)
    |>.step (.setAvailable _ false) |>.step (.refuse rfl) |>.step (.setAvailable _ true)
    |>.step (.publish rfl) |>.step (.wake _) |>.step (.deliver rfl) |>.step (.unsubscribe _ 1)
    |>.step (.publish rfl) |>.step (.deliver rfl) |>.step (.rest _) |>.step (.close _)
    |>.step (.setAvailable _ true) |>.step (.wake _) |>.step (.refuse rfl)

/-- The first subscription has been handed one of the messages that were taken, the second two, and
a closed broker stays closed when it is made available. -/
theorem delivers_run_twoListeners :
    Delivers twoListeners abandoned ∧
    twoListeners.accepted.map Message.topic = ["fleet/a/reply", "fleet/b/reply", "b"] ∧
    (twoListeners.seenBy 1).map Message.topic = ["fleet/a/reply"] ∧
    (twoListeners.seenBy 2).map Message.topic = ["fleet/a/reply", "fleet/b/reply"] ∧
    abandoned.publish (note "d") = .error (.channelUnavailable "d" "broker closed") := by
  have hdelivers := delivers_run run_twoListeners
  exact ⟨hdelivers, rfl, rfl, rfl, (hdelivers.refuses (by simp [twoListeners])).1 (note "d")⟩

/-- Two messages wait, and the listener closes the broker when it is handed the first one. -/
def closedFromWithin : History String :=
  [.subscribed ⟨1, "#", "all"⟩, .accepted (note "a"), .accepted (note "b"), .woken,
    .dispatched (note "a") [⟨1, "#", "all"⟩], .closed]

/-- The broker after that: its delivery is still at work. -/
def closing : Broker String := ⟨⟨1, [⟨1, "#", "all"⟩]⟩, [note "b"], false, true, true⟩

private theorem run_closedFromWithin : Run closedFromWithin closing :=
  Run.start.step (.subscribe rfl) |>.step (.publish rfl) |>.step (.publish rfl) |>.step (.wake _)
    |>.step (.deliver rfl) |>.step (.close _)

/-- The broker has been closed, and still the message that waited is handed out. -/
theorem dispatched_after_close :
    Run closedFromWithin closing ∧ .closed ∈ closedFromWithin ∧
    (closing.publish (note "c") = .error (.channelUnavailable "c" "broker closed")) ∧
    Run (closedFromWithin ++ [.dispatched (note "b") [⟨1, "#", "all"⟩]])
      { closing with inbox := [] } :=
  ⟨run_closedFromWithin, by simp [closedFromWithin], rfl, run_closedFromWithin.step (.deliver rfl)⟩

end Flotilla.Broker
