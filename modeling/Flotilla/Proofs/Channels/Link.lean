import Flotilla.Link
import Flotilla.Proofs.Channels.Frames
import Flotilla.Proofs.Channels.Subscribing

/-!
# What passes over a link

Messages are taken to be sent, frames are written in parts, bytes come in in any pieces and are
given out as messages, and the stream may end at any time (`Link.Run`). What was taken is turned to
in order and written frame by frame (`Link.Sends`); what comes in is given out frame by frame
(`Link.Receives`). Four things end a link, and nothing passes over it afterwards (`Link.Ends`).
-/

namespace Flotilla.Link

open Flotilla.Frame (fits frames messages)
open Subscriptions (Change HandedOut Reflects)

variable {α : Type}

/-- What can happen at a link. -/
inductive Happening (α : Type) where
  /-- A message is taken. -/
  | accepted (m : Message)
  /-- A message is not taken. -/
  | refused (m : Message) (fault : Fault)
  /-- A subscription is made. -/
  | subscribed (s : Subscription α)
  /-- The subscription with this number is given up. -/
  | unsubscribed (id : Nat)
  /-- A message is turned to. -/
  | begun (m : Message)
  /-- A message is turned to that does not fit into a frame. -/
  | stuck (m : Message)
  /-- Bytes are written. -/
  | wrote (data : Bytes)
  /-- Bytes come in. -/
  | received (data : Bytes)
  /-- A message that came in is handed to subscriptions, in this order. -/
  | handed (m : Message) (recipients : List (Subscription α))
  /-- All messages that came in have been handed out. -/
  | rested
  /-- A frame came in that cannot be read. -/
  | broken
  /-- The stream ends or breaks. -/
  | hungUp
  /-- Nobody holds the link any more, and all is sent. -/
  | letGo

/-- What has happened at a link, the earliest first. -/
abbrev History (α : Type) := List (Happening α)

/-- The task of a link does something, or something is asked of the link. -/
inductive Step : Link α → Happening α → Link α → Prop
  | publish {l l' : Link α} {m : Message} (hroom : l.hasRoom = true) (h : l.publish m = .ok l') :
    Step l (.accepted m) l'
  | refuse {l : Link α} {m : Message} {fault : Fault} (h : l.publish m = .error fault) :
    Step l (.refused m fault) l
  | subscribe (l : Link α) (pattern : String) (listener : α) :
    Step l (.subscribed ⟨(l.subscribe pattern listener).1, pattern, listener⟩)
      (l.subscribe pattern listener).2
  | unsubscribe (l : Link α) (id : Nat) : Step l (.unsubscribed id) (l.unsubscribe id)
  | begin {l : Link α} {m : Message} {rest : List Message} {bytes : Bytes}
    (hstage : l.stage = .waiting) (houtbox : l.outbox = m :: rest)
    (h : Frame.encode m = .ok bytes) : Step l (.begun m) l.takeUp
  | stick {l : Link α} {m : Message} {rest : List Message} {fault : CodecFault}
    (hstage : l.stage = .waiting) (houtbox : l.outbox = m :: rest)
    (h : Frame.encode m = .error fault) : Step l (.stuck m) l.takeUp
  | write {l : Link α} {rest : Bytes} (hstage : l.stage = .writing rest) (count : Nat) :
    Step l (.wrote (rest.take count)) (l.write count)
  | read {l : Link α} (hstage : l.stage = .waiting) (data : Bytes) :
    Step l (.received data) (l.read data)
  | hand {l l' : Link α} {m : Message} {recipients : List (Subscription α)}
    (h : l.giveOut = (some (m, recipients), l')) : Step l (.handed m recipients) l'
  | rest {l l' : Link α} (hstage : l.stage = .giving) (h : l.giveOut = (none, l'))
    (hopen : l'.isClosed = false) : Step l .rested l'
  | breakOff {l l' : Link α} (hstage : l.stage = .giving) (h : l.giveOut = (none, l'))
    (hclosed : l'.isClosed = true) : Step l .broken l'
  | hangUp {l : Link α} (hstage : l.stage ≠ .giving) (hopen : l.isClosed = false) :
    Step l .hungUp l.hangUp
  | letGo {l : Link α} (hstage : l.stage = .waiting) (houtbox : l.outbox = []) :
    Step l .letGo l.letGo

/-- What has happened at a new link, and what has become of it. -/
inductive Run : History α → Link α → Prop
  | start : Run [] .new
  | step {history : History α} {l l' : Link α} {x : Happening α} (h : Run history l)
    (hstep : Step l x l') : Run (history ++ [x]) l'

namespace Happening

/-- The message that is taken. -/
def taken? : Happening α → Option Message
  | .accepted m => some m
  | _ => none

/-- The message that is turned to and fits. -/
def begun? : Happening α → Option Message
  | .begun m => some m
  | _ => none

/-- The message that is handed out. -/
def handedOut? : Happening α → Option Message
  | .handed m _ => some m
  | _ => none

/-- What happens to the subscriptions. -/
def change? : Happening α → Option (Change α)
  | .subscribed s => some (.made s)
  | .unsubscribed id => some (.givenUp id)
  | _ => none

/-- The bytes that come in. -/
def data : Happening α → Bytes
  | .received data => data
  | _ => []

/-- This ends the link. -/
def Ends : Happening α → Prop
  | .stuck _ | .broken | .hungUp | .letGo => True
  | _ => False

/-- Nothing passes over the link. -/
structure Idle (x : Happening α) : Prop where
  taken : x.taken? = none
  begun : x.begun? = none
  handedOut : x.handedOut? = none
  data : x.data = []
  goesOn : ¬x.Ends

end Happening

namespace History

/-- The messages that were taken. -/
def accepted (history : History α) : List Message := history.filterMap Happening.taken?

/-- The messages that were turned to and fit. -/
def begun (history : History α) : List Message := history.filterMap Happening.begun?

/-- The messages that were handed out. -/
def handedOut (history : History α) : List Message := history.filterMap Happening.handedOut?

/-- What has happened to the subscriptions. -/
def changes (history : History α) : List (Change α) := history.filterMap Happening.change?

private theorem changes_concat_of_some {history : History α} {x : Happening α} {change : Change α}
    (h : x.change? = some change) : changes (history ++ [x]) = history.changes ++ [change] :=
  filterMap_concat_of_some h

private theorem changes_concat_of_none {history : History α} {x : Happening α}
    (h : x.change? = none) :
    changes (history ++ [x]) = history.changes :=
  filterMap_concat_of_none h

/-- The bytes that came in. -/
def received (history : History α) : Bytes := history.flatMap Happening.data

private theorem received_concat (history : History α) (x : Happening α) :
    received (history ++ [x]) = history.received ++ x.data := by
  rw [received, List.flatMap_append, List.flatMap_singleton, received]

end History

open History

/-- The bytes of the frame under way that are not written yet. -/
def unsent (l : Link α) : Bytes :=
  match l.stage with
  | .writing rest => rest
  | _ => []

variable {history : History α} {l l' : Link α} {x : Happening α} {m : Message}

/-- A link is closed when it has ended. -/
theorem isClosed_eq_true_iff : l.isClosed = true ↔ l.stage = .ended := decide_eq_true_iff

private theorem isClosed_of_stage {stage : Stage} (h : l.stage = stage) (hne : stage ≠ .ended) :
    l.isClosed = false := decide_eq_false (h ▸ hne)

/-- A link that writes nothing has nothing left to write. -/
theorem unsent_of_stage (h : ∀ rest, l.stage ≠ .writing rest) : l.unsent = [] := by
  unfold unsent
  split
  · next rest hstage => exact absurd hstage (h rest)
  · rfl

/-- Only an open link takes a message, and it puts it behind those that wait. -/
theorem opened_of_publish (h : l.publish m = .ok l') :
    l.isClosed = false ∧ l' = { l with outbox := l.outbox ++ [m] } := by
  unfold publish at h
  split at h
  · cases h
  · next hclosed =>
    cases h
    exact ⟨Bool.eq_false_iff.2 hclosed, rfl⟩

/-- A link that has dropped takes nothing. -/
theorem refuses_of_closed (h : l.isClosed = true) (m : Message) :
    l.publish m = .error (.channelUnavailable m.topic "link closed") := by
  rw [publish, if_pos h]

/-- A link turns to the first message that waits by writing its frame. -/
theorem takeUp_of_encode {rest : List Message} {bytes : Bytes} (hstage : l.stage = .waiting)
    (houtbox : l.outbox = m :: rest) (h : Frame.encode m = .ok bytes) :
    l.takeUp = { l with outbox := rest, stage := .writing bytes } := by
  simp only [takeUp, hstage, houtbox, h]

/-- A message that cannot be written drops the link. -/
theorem takeUp_of_error {rest : List Message} {fault : CodecFault} (hstage : l.stage = .waiting)
    (houtbox : l.outbox = m :: rest) (h : Frame.encode m = .error fault) : l.takeUp = l.drop := by
  simp only [takeUp, hstage, houtbox, h]

/-- A link writes the front of what it has left, and waits again when that is all. -/
theorem write_of_stage {rest : Bytes} (hstage : l.stage = .writing rest) (count : Nat) :
    l.write count =
      { l with
        written := l.written ++ rest.take count
        stage := if rest.length ≤ count then .waiting else .writing (rest.drop count) } := by
  simp only [write, hstage]

private theorem isClosed_write {rest : Bytes} (hstage : l.stage = .writing rest) (count : Nat) :
    (l.write count).isClosed = false := by
  rw [write_of_stage hstage]
  unfold isClosed
  split <;> rfl

private theorem unsent_write {rest : Bytes} (hstage : l.stage = .writing rest) (count : Nat) :
    (l.write count).unsent = rest.drop count := by
  rw [write_of_stage hstage]
  by_cases hall : rest.length ≤ count
  · rw [List.drop_of_length_le hall]
    simp only [unsent, if_pos hall]
  · simp only [unsent, if_neg hall]

/-- What a link reads comes behind what its buffer holds. -/
theorem read_of_stage (hstage : l.stage = .waiting) (data : Bytes) :
    l.read data = { l with decoder := l.decoder.extend data, stage := .giving } := by
  simp only [read, hstage]

/-- A link that nobody holds, with nothing to send, drops. -/
theorem letGo_of_stage (hstage : l.stage = .waiting) (houtbox : l.outbox = []) :
    l.letGo = l.drop := by
  simp only [letGo, hstage, houtbox]

/-- The end of the stream drops a link that is not giving out messages. -/
theorem hangUp_of_stage (hstage : l.stage ≠ .giving) : l.hangUp = l.drop := by
  unfold hangUp
  split
  · next hgiving => exact absurd hgiving hstage
  · rfl

/-- All that giving out can be: the next message is at the front, or no complete frame, or one that
cannot be read. -/
theorem giveOut_cases (hstage : l.stage = .giving) :
    (∃ m, (Frame.decode l.decoder.buffer).1 = .message m ∧
      l.giveOut = (some (m, l.subscriptions.matching m.topic),
        { l with decoder := ⟨(Frame.decode l.decoder.buffer).2⟩ })) ∨
    ((Frame.decode l.decoder.buffer).1 = .incomplete ∧
      l.giveOut = (none, { l with stage := .waiting })) ∨
    (∃ fault, (Frame.decode l.decoder.buffer).1 = .refused fault ∧ l.giveOut = (none, l.drop)) := by
  simp only [giveOut, hstage, Frame.Decoder.next]
  cases Frame.decode l.decoder.buffer with
  | mk o rest =>
    cases o with
    | message m => exact Or.inl ⟨m, rfl, rfl⟩
    | incomplete => exact Or.inr (Or.inl ⟨rfl, rfl⟩)
    | refused fault => exact Or.inr (Or.inr ⟨fault, rfl, rfl⟩)

/-- Only a link that is giving out messages hands one out. -/
theorem giving_of_handed {recipients : List (Subscription α)}
    (h : l.giveOut = (some (m, recipients), l')) : l.stage = .giving := by
  unfold giveOut at h
  split at h
  · next hstage => exact hstage
  · cases h

/-- A message goes to the subscriptions that match now. -/
theorem recipients_of_handed {recipients : List (Subscription α)}
    (h : l.giveOut = (some (m, recipients), l')) :
    recipients = l.subscriptions.matching m.topic := by
  rcases giveOut_cases (giving_of_handed h) with ⟨n, -, he⟩ | ⟨-, he⟩ | ⟨fault, -, he⟩ <;>
    cases he.symm.trans h
  rfl

/-- What a link hands out is the message at the front of its buffer. -/
theorem decode_of_handed {recipients : List (Subscription α)}
    (h : l.giveOut = (some (m, recipients), l')) :
    l.stage = .giving ∧ (Frame.decode l.decoder.buffer).1 = .message m ∧
      l' = { l with decoder := ⟨(Frame.decode l.decoder.buffer).2⟩ } := by
  have hstage := giving_of_handed h
  rcases giveOut_cases hstage with ⟨n, hdecode, he⟩ | ⟨-, he⟩ | ⟨fault, -, he⟩ <;>
    cases he.symm.trans h
  exact ⟨hstage, hdecode, rfl⟩

/-- A link waits again when the frame at the front of its buffer is not whole. -/
theorem decode_of_rested (hstage : l.stage = .giving) (h : l.giveOut = (none, l'))
    (hopen : l'.isClosed = false) :
    (Frame.decode l.decoder.buffer).1 = .incomplete ∧ l' = { l with stage := .waiting } := by
  rcases giveOut_cases hstage with ⟨n, -, he⟩ | ⟨hdecode, he⟩ | ⟨fault, -, he⟩ <;>
    cases he.symm.trans h
  · exact ⟨hdecode, rfl⟩
  · cases hopen

/-- A frame that cannot be read drops the link. -/
theorem decode_of_broken (hstage : l.stage = .giving) (h : l.giveOut = (none, l'))
    (hclosed : l'.isClosed = true) :
    (∃ fault, (Frame.decode l.decoder.buffer).1 = .refused fault) ∧ l' = l.drop := by
  rcases giveOut_cases hstage with ⟨n, -, he⟩ | ⟨-, he⟩ | ⟨fault, hdecode, he⟩ <;>
    cases he.symm.trans h
  · cases hclosed
  · exact ⟨⟨fault, hdecode⟩, rfl⟩

/-- All but the subscriptions of a link, and what it has yet to give out, is as it was. -/
structure Still (l l' : Link α) : Prop where
  outbox : l'.outbox = l.outbox
  written : l'.written = l.written
  stage : l'.stage = l.stage

/-- A link that has dropped stays so, and nothing passes over it. -/
theorem Step.idle_of_closed (h : Step l x l') (hclosed : l.isClosed = true) :
    x.Idle ∧ Still l l' := by
  have hended := isClosed_eq_true_iff.1 hclosed
  cases h with
  | publish _ hpublish => cases (opened_of_publish hpublish).1.symm.trans hclosed
  | refuse => exact ⟨⟨rfl, rfl, rfl, rfl, id⟩, rfl, rfl, rfl⟩
  | subscribe => exact ⟨⟨rfl, rfl, rfl, rfl, id⟩, rfl, rfl, rfl⟩
  | unsubscribe => exact ⟨⟨rfl, rfl, rfl, rfl, id⟩, rfl, rfl, rfl⟩
  | begin hstage => cases hended.symm.trans hstage
  | stick hstage => cases hended.symm.trans hstage
  | write hstage => cases hended.symm.trans hstage
  | read hstage => cases hended.symm.trans hstage
  | hand hgive => cases hended.symm.trans (giving_of_handed hgive)
  | rest hstage => cases hended.symm.trans hstage
  | breakOff hstage => cases hended.symm.trans hstage
  | hangUp _ hopen => cases hopen.symm.trans hclosed
  | letGo hstage => cases hended.symm.trans hstage

/-- A link that is closed stays closed. -/
theorem Step.closed_of_closed (h : Step l x l') (hclosed : l.isClosed = true) :
    l'.isClosed = true := by
  rw [isClosed, (h.idle_of_closed hclosed).2.stage]
  exact hclosed

/-- A link drops when something ends it, and only then. -/
theorem Step.isClosed_iff (h : Step l x l') (hopen : l.isClosed = false) :
    l'.isClosed = true ↔ x.Ends := by
  have hgoesOn {l' : Link α} {x : Happening α} (hx : ¬x.Ends) (hopen : l'.isClosed = false) :
      l'.isClosed = true ↔ x.Ends :=
    iff_of_false (Bool.eq_false_iff.1 hopen) hx
  cases h with
  | publish _ hpublish =>
    obtain ⟨-, rfl⟩ := opened_of_publish hpublish
    exact hgoesOn id hopen
  | refuse => exact hgoesOn id hopen
  | subscribe => exact hgoesOn id hopen
  | unsubscribe => exact hgoesOn id hopen
  | begin hstage houtbox hencode =>
    rw [takeUp_of_encode hstage houtbox hencode]
    exact hgoesOn id rfl
  | stick hstage houtbox hencode =>
    rw [takeUp_of_error hstage houtbox hencode]
    exact iff_of_true rfl trivial
  | write hstage count =>
    exact hgoesOn id (isClosed_write hstage count)
  | read hstage data =>
    rw [read_of_stage hstage]
    exact hgoesOn id rfl
  | hand hgive =>
    obtain ⟨hstage, -, rfl⟩ := decode_of_handed hgive
    exact hgoesOn id hopen
  | rest _ _ hrested => exact hgoesOn id hrested
  | breakOff _ _ hclosed => exact iff_of_true hclosed trivial
  | hangUp hstage =>
    rw [hangUp_of_stage hstage]
    exact iff_of_true rfl trivial
  | letGo hstage houtbox =>
    rw [letGo_of_stage hstage houtbox]
    exact iff_of_true rfl trivial

/-- A link has dropped if something has ended it, and nothing has passed over it since. -/
structure Ended (history : History α) (l : Link α) : Prop where
  closed_iff : l.isClosed = true ↔ ∃ x ∈ history, x.Ends
  idle : ∀ before y after, history = before ++ y :: after → y.Ends → ∀ z ∈ after, z.Idle

/-- Nothing passes over a link that has ended. -/
theorem Ended.step (h : Ended history l) (hstep : Step l x l') : Ended (history ++ [x]) l' := by
  have hends : (∃ y ∈ history ++ [x], y.Ends) ↔ (∃ y ∈ history, y.Ends) ∨ x.Ends := by
    simp only [List.mem_append, List.mem_singleton, or_and_right, exists_or, exists_eq_left]
  constructor
  · rw [hends, ← h.closed_iff]
    cases hclosed : l.isClosed with
    | true => exact iff_of_true (hstep.closed_of_closed hclosed) (Or.inl rfl)
    | false => rw [hstep.isClosed_iff hclosed, or_iff_right Bool.false_ne_true]
  · intro before y after hsplit hy z hz
    rcases split_concat hsplit with ⟨-, -, rfl⟩ | ⟨rest, rfl, hbefore⟩
    · cases hz
    · rcases List.mem_append.1 hz with hz | hz
      · exact h.idle before y rest hbefore hy z hz
      · have hclosed : l.isClosed = true := h.closed_iff.2
          ⟨y, hbefore ▸ List.mem_append_right _ List.mem_cons_self, hy⟩
        rw [List.mem_singleton.1 hz]
        exact (hstep.idle_of_closed hclosed).1

/-- What was taken is turned to in order, and written frame by frame. A message that does not fit
ends the link, with everything in front of it written. -/
structure Sends (history : History α) (l : Link α) : Prop where
  fit : ∀ m ∈ history.begun, fits m = true
  inOrder : history.begun <+: history.accepted
  queued : l.isClosed = false → history.accepted = history.begun ++ l.outbox
  sent : l.written <+: frames history.begun
  framed : l.isClosed = false → frames history.begun = l.written ++ l.unsent
  emptied : l.isClosed = true → l.outbox = []
  stuck : ∀ m, .stuck m ∈ history → l.isClosed = true ∧ fits m = false ∧
    l.written = frames history.begun ∧ ∃ lost, history.accepted = history.begun ++ m :: lost

/-- Whatever leaves alone what is to be sent. -/
theorem Sends.beside (h : Sends history l) (hclosed : l'.isClosed = l.isClosed)
    (houtbox : l'.outbox = l.outbox) (hwritten : l'.written = l.written)
    (hunsent : l'.unsent = l.unsent) (htaken : x.taken? = none) (hbegun : x.begun? = none)
    (hstuck : ∀ m, x ≠ .stuck m) : Sends (history ++ [x]) l' := by
  have haccepted : accepted (history ++ [x]) = history.accepted := filterMap_concat_of_none htaken
  have hturned : begun (history ++ [x]) = history.begun := filterMap_concat_of_none hbegun
  have hmem (m : Message) : .stuck m ∈ history ++ [x] ↔ .stuck m ∈ history := by
    rw [List.mem_append, List.mem_singleton, or_iff_left (hstuck m).symm]
  constructor <;> simp only [haccepted, hturned, hmem, hclosed, houtbox, hwritten, hunsent]
  · exact h.fit
  · exact h.inOrder
  · exact h.queued
  · exact h.sent
  · exact h.framed
  · exact h.emptied
  · exact h.stuck

/-- Dropping a link loses what waits, and otherwise changes nothing. -/
theorem Sends.drop (h : Sends history l) (htaken : x.taken? = none) (hbegun : x.begun? = none)
    (hstuck : ∀ m, .stuck m ∈ history ++ [x] → fits m = false ∧
      l.written = frames history.begun ∧ ∃ lost, history.accepted = history.begun ++ m :: lost) :
    Sends (history ++ [x]) l.drop := by
  have haccepted : accepted (history ++ [x]) = history.accepted := filterMap_concat_of_none htaken
  have hturned : begun (history ++ [x]) = history.begun := filterMap_concat_of_none hbegun
  refine ⟨hturned ▸ h.fit, ?_, nofun, hturned ▸ h.sent, nofun, fun _ => rfl, fun m hm => ?_⟩
  · rw [haccepted, hturned]
    exact h.inOrder
  · rw [haccepted, hturned]
    exact ⟨rfl, hstuck m hm⟩

/-- The end of an open link at which no message is stuck. -/
theorem Sends.drop_of_open (h : Sends history l) (hopen : l.isClosed = false)
    (htaken : x.taken? = none) (hbegun : x.begun? = none) (hstuck : ∀ m, x ≠ .stuck m) :
    Sends (history ++ [x]) l.drop := by
  refine h.drop htaken hbegun fun m hm => ?_
  rw [List.mem_append, List.mem_singleton, or_iff_left (hstuck m).symm] at hm
  cases hopen.symm.trans (h.stuck m hm).1

/-- No message is stuck on a link that has not dropped. -/
private theorem Sends.not_stuck (h : Sends history l) (hopen : l.isClosed = false)
    (hm : .stuck m ∈ history ++ [x]) (hx : ∀ m, x ≠ .stuck m) : False := by
  rw [List.mem_append, List.mem_singleton, or_iff_left (hx m).symm] at hm
  cases hopen.symm.trans (h.stuck m hm).1

/-- A message that is taken joins those that wait. -/
theorem Sends.publish (h : Sends history l) (hopen : l.isClosed = false) (m : Message) :
    Sends (history ++ [.accepted m]) { l with outbox := l.outbox ++ [m] } := by
  have haccepted : accepted (history ++ [.accepted m]) = history.accepted ++ [m] :=
    filterMap_concat_of_some rfl
  have hbegun : begun (history ++ [.accepted m]) = history.begun := filterMap_concat_of_none rfl
  refine ⟨hbegun ▸ h.fit, ?_, fun _ => ?_, hbegun ▸ h.sent, fun _ => hbegun ▸ h.framed hopen,
    fun hclosed => ?_, fun n hn => ?_⟩
  · rw [haccepted, hbegun]
    exact h.inOrder.trans (List.prefix_append ..)
  · rw [haccepted, hbegun, h.queued hopen, List.append_assoc]
  · cases hopen.symm.trans hclosed
  · exact (h.not_stuck hopen hn nofun).elim

/-- While the task waits, the frames of all that was turned to have been written. -/
theorem Sends.written_of_waiting (h : Sends history l) (hstage : l.stage = .waiting) :
    l.written = frames history.begun := by
  have hidle : l.unsent = [] := unsent_of_stage fun rest hwriting => by
    cases hstage.symm.trans hwriting
  rw [h.framed (isClosed_of_stage hstage nofun), hidle, List.append_nil]

/-- A message that is turned to is to be written behind the others. -/
theorem Sends.begin (h : Sends history l) {rest : List Message} (hstage : l.stage = .waiting)
    (houtbox : l.outbox = m :: rest) (hfits : fits m = true) :
    Sends (history ++ [.begun m])
      { l with outbox := rest, stage := .writing (Frame.frame m) } := by
  have hopen : l.isClosed = false := isClosed_of_stage hstage nofun
  have haccepted : accepted (history ++ [.begun m]) = history.accepted :=
    filterMap_concat_of_none rfl
  have hbegun : begun (history ++ [.begun m]) = history.begun ++ [m] :=
    filterMap_concat_of_some rfl
  have hqueued : history.accepted = (history.begun ++ [m]) ++ rest := by
    rw [h.queued hopen, houtbox, List.append_assoc]
    rfl
  have hframed : frames (history.begun ++ [m]) = l.written ++ Frame.frame m := by
    rw [Frame.frames_append, Frame.frames_singleton, h.written_of_waiting hstage]
  refine ⟨fun n hn => ?_, ?_, fun _ => ?_, ?_, fun _ => ?_, nofun, fun n hn => ?_⟩
  · rw [hbegun, List.mem_append, List.mem_singleton] at hn
    rcases hn with hn | rfl
    · exact h.fit n hn
    · exact hfits
  · rw [haccepted, hbegun, hqueued]
    exact List.prefix_append ..
  · rw [haccepted, hbegun, hqueued]
  · rw [hbegun, hframed]
    exact List.prefix_append ..
  · rw [hbegun, hframed]
    rfl
  · exact (h.not_stuck hopen hn nofun).elim

/-- A message that does not fit is lost with all that wait behind it. -/
theorem Sends.stick (h : Sends history l) {rest : List Message} (hstage : l.stage = .waiting)
    (houtbox : l.outbox = m :: rest) (hfits : fits m = false) :
    Sends (history ++ [.stuck m]) l.drop := by
  have hopen : l.isClosed = false := isClosed_of_stage hstage nofun
  refine h.drop rfl rfl fun n hn => ?_
  rw [List.mem_append, List.mem_singleton] at hn
  rcases hn with hn | hn
  · cases hopen.symm.trans (h.stuck n hn).1
  · cases hn
    refine ⟨hfits, h.written_of_waiting hstage, rest, ?_⟩
    rw [h.queued hopen, houtbox]

/-- Some bytes of a frame are written. -/
theorem Sends.write (h : Sends history l) {rest : Bytes} (hstage : l.stage = .writing rest)
    (count : Nat) : Sends (history ++ [.wrote (rest.take count)]) (l.write count) := by
  have hopen : l.isClosed = false := isClosed_of_stage hstage nofun
  have hunsent : l.unsent = rest := by rw [unsent, hstage]
  have hbegun : begun (history ++ [.wrote (rest.take count)]) = history.begun :=
    filterMap_concat_of_none rfl
  have haccepted : accepted (history ++ [.wrote (rest.take count)]) = history.accepted :=
    filterMap_concat_of_none rfl
  have hwritten : (l.write count).written = l.written ++ rest.take count := by
    rw [write_of_stage hstage]
  have houtbox : (l.write count).outbox = l.outbox := by rw [write_of_stage hstage]
  have hframed : frames history.begun = (l.write count).written ++ rest.drop count := by
    rw [h.framed hopen, hunsent, hwritten, List.append_assoc, List.take_append_drop]
  refine ⟨hbegun ▸ h.fit, ?_, fun _ => ?_, ?_, fun _ => ?_, fun hclosed => ?_, fun n hn => ?_⟩
  · rw [haccepted, hbegun]
    exact h.inOrder
  · rw [haccepted, hbegun, houtbox]
    exact h.queued hopen
  · rw [hbegun, hframed]
    exact List.prefix_append ..
  · rw [hbegun, hframed, unsent_write hstage]
  · cases (isClosed_write hstage count).symm.trans hclosed
  · exact (h.not_stuck hopen hn nofun).elim

/-- Each step keeps to the order. -/
theorem Sends.step (h : Sends history l) (hstep : Step l x l') : Sends (history ++ [x]) l' := by
  cases hstep with
  | publish _ hpublish =>
    obtain ⟨hopen, rfl⟩ := opened_of_publish hpublish
    exact h.publish hopen _
  | refuse => exact h.beside rfl rfl rfl rfl rfl rfl nofun
  | subscribe => exact h.beside rfl rfl rfl rfl rfl rfl nofun
  | unsubscribe => exact h.beside rfl rfl rfl rfl rfl rfl nofun
  | begin hstage houtbox hencode =>
    obtain ⟨hfits, rfl⟩ := Frame.fits_of_encode hencode
    rw [takeUp_of_encode hstage houtbox hencode]
    exact h.begin hstage houtbox hfits
  | stick hstage houtbox hencode =>
    rw [takeUp_of_error hstage houtbox hencode]
    exact h.stick hstage houtbox (Frame.not_fits_of_encode hencode)
  | write hstage count => exact h.write hstage count
  | read hstage data =>
    rw [read_of_stage hstage]
    refine h.beside ?_ rfl rfl ?_ rfl rfl nofun
    · exact (isClosed_of_stage hstage nofun).symm
    · exact (unsent_of_stage fun rest hwriting => by cases hstage.symm.trans hwriting).symm
  | hand hgive =>
    obtain ⟨hstage, -, rfl⟩ := decode_of_handed hgive
    exact h.beside rfl rfl rfl rfl rfl rfl nofun
  | rest hstage hgive hopen =>
    obtain ⟨-, rfl⟩ := decode_of_rested hstage hgive hopen
    refine h.beside ?_ rfl rfl ?_ rfl rfl nofun
    · exact (isClosed_of_stage hstage nofun).symm
    · exact (unsent_of_stage fun rest hwriting => by cases hstage.symm.trans hwriting).symm
  | breakOff hstage hgive hclosed =>
    obtain ⟨-, rfl⟩ := decode_of_broken hstage hgive hclosed
    exact h.drop_of_open (isClosed_of_stage hstage nofun) rfl rfl nofun
  | hangUp hstage hopen =>
    rw [hangUp_of_stage hstage]
    exact h.drop_of_open hopen rfl rfl nofun
  | letGo hstage houtbox =>
    rw [letGo_of_stage hstage houtbox]
    exact h.drop_of_open (isClosed_of_stage hstage nofun) rfl rfl nofun

/-- The bytes that came in are the frames of the messages that were handed out, and what the decoder
holds. Unless messages are being given out, that begins with no complete frame, or with one that
cannot be read, which has ended the link. -/
structure Receives (history : History α) (l : Link α) : Prop where
  cut : ∃ parts, List.Forall₂ (fun bytes m => Frame.Holds bytes (.message m)) parts
    history.handedOut ∧ history.received = parts.flatten ++ l.decoder.buffer
  resting : l.stage ≠ .giving → ∀ m, (Frame.decode l.decoder.buffer).1 ≠ .message m
  sound : l.stage ≠ .giving → l.isClosed = false →
    (Frame.decode l.decoder.buffer).1 = .incomplete

/-- Whatever leaves alone what came in, where no complete frame is waiting. -/
theorem Receives.of_incomplete (h : Receives history l) (hdecoder : l'.decoder = l.decoder)
    (hhanded : x.handedOut? = none) (hdata : x.data = [])
    (hnone : (Frame.decode l.decoder.buffer).1 = .incomplete) : Receives (history ++ [x]) l' := by
  have hhandedOut : handedOut (history ++ [x]) = history.handedOut :=
    filterMap_concat_of_none hhanded
  refine ⟨?_, fun _ m => ?_, fun _ _ => ?_⟩
  · rw [hhandedOut, received_concat, hdata, List.append_nil, hdecoder]
    exact h.cut
  · rw [hdecoder, hnone]
    nofun
  · rw [hdecoder, hnone]

/-- Whatever leaves alone what came in and what the task does. -/
theorem Receives.beside (h : Receives history l) (hdecoder : l'.decoder = l.decoder)
    (hstage : l'.stage = l.stage) (hhanded : x.handedOut? = none) (hdata : x.data = []) :
    Receives (history ++ [x]) l' := by
  have hhandedOut : handedOut (history ++ [x]) = history.handedOut :=
    filterMap_concat_of_none hhanded
  have hclosed : l'.isClosed = l.isClosed := by rw [isClosed, isClosed, hstage]
  refine ⟨?_, ?_, ?_⟩
  · rw [hhandedOut, received_concat, hdata, List.append_nil, hdecoder]
    exact h.cut
  · rw [hstage, hdecoder]
    exact h.resting
  · rw [hstage, hdecoder, hclosed]
    exact h.sound

/-- A step hands out nothing but the message at the front of the buffer. -/
theorem Receives.step (h : Receives history l) (hstep : Step l x l') :
    Receives (history ++ [x]) l' := by
  have hwaiting (hstage : l.stage = .waiting) : (Frame.decode l.decoder.buffer).1 = .incomplete :=
    h.sound (by rw [hstage]; nofun) (isClosed_of_stage hstage nofun)
  cases hstep with
  | publish _ hpublish =>
    obtain ⟨-, rfl⟩ := opened_of_publish hpublish
    exact h.beside rfl rfl rfl rfl
  | refuse => exact h.beside rfl rfl rfl rfl
  | subscribe => exact h.beside rfl rfl rfl rfl
  | unsubscribe => exact h.beside rfl rfl rfl rfl
  | begin hstage houtbox hencode =>
    rw [takeUp_of_encode hstage houtbox hencode]
    exact h.of_incomplete rfl rfl rfl (hwaiting hstage)
  | stick hstage houtbox hencode =>
    rw [takeUp_of_error hstage houtbox hencode]
    exact h.of_incomplete rfl rfl rfl (hwaiting hstage)
  | write hstage count =>
    rw [write_of_stage hstage]
    exact h.of_incomplete rfl rfl rfl
      (h.sound (by rw [hstage]; nofun) (isClosed_of_stage hstage nofun))
  | read hstage data =>
    rw [read_of_stage hstage]
    obtain ⟨parts, hparts, hreceived⟩ := h.cut
    have hhandedOut : handedOut (history ++ [.received data]) = history.handedOut :=
      filterMap_concat_of_none rfl
    refine ⟨⟨parts, hhandedOut ▸ hparts, ?_⟩, fun hgiving => absurd rfl hgiving,
      fun hgiving => absurd rfl hgiving⟩
    rw [received_concat, hreceived, List.append_assoc]
    rfl
  | @hand _ m recipients hgive =>
    obtain ⟨hstage, hdecode, rfl⟩ := decode_of_handed hgive
    obtain ⟨parts, hparts, hreceived⟩ := h.cut
    have hhandedOut : handedOut (history ++ [.handed m recipients]) = history.handedOut ++ [m] :=
      filterMap_concat_of_some rfl
    obtain ⟨bytes, body, rest, hframe, hbuffer, hwhole⟩ |
      ⟨a, b, c, d, rest, -, -, hwhole⟩ | hwhole := Frame.decode_cases l.decoder.buffer
    · refine ⟨⟨parts ++ [bytes], ?_, ?_⟩, fun hgiving => absurd hstage hgiving,
        fun hgiving => absurd hstage hgiving⟩
      · rw [hhandedOut]
        refine List.rel_append hparts (.cons ⟨body, hframe, ?_⟩ .nil)
        rw [← hdecode, hwhole]
      · have hdata : (Happening.handed m recipients).data = [] := rfl
        rw [received_concat, hdata, List.append_nil, hreceived, hwhole, List.flatten_append,
          List.flatten_singleton, List.append_assoc]
        exact congrArg _ hbuffer
    · cases hdecode.symm.trans (congrArg Prod.fst hwhole)
    · cases hdecode.symm.trans (congrArg Prod.fst hwhole)
  | rest hstage hgive hopen =>
    obtain ⟨hnone, rfl⟩ := decode_of_rested hstage hgive hopen
    exact h.of_incomplete rfl rfl rfl hnone
  | breakOff hstage hgive hclosed =>
    obtain ⟨⟨fault, hdecode⟩, rfl⟩ := decode_of_broken hstage hgive hclosed
    have hhandedOut : handedOut (history ++ [.broken]) = history.handedOut :=
      filterMap_concat_of_none rfl
    refine ⟨?_, fun _ m hm => ?_, fun _ hopen => ?_⟩
    · rw [hhandedOut, received_concat]
      exact (List.append_nil history.received).symm ▸ h.cut
    · cases hdecode.symm.trans hm
    · cases hopen
  | hangUp hstage hopen =>
    rw [hangUp_of_stage hstage]
    exact h.of_incomplete rfl rfl rfl (h.sound hstage hopen)
  | letGo hstage houtbox =>
    rw [letGo_of_stage hstage houtbox]
    exact h.of_incomplete rfl rfl rfl (hwaiting hstage)

/-- Only making and giving up a subscription changes the subscriptions. -/
theorem Step.subscriptions_eq (h : Step l x l') (hx : x.change? = none) :
    l'.subscriptions = l.subscriptions := by
  cases h with
  | publish _ hpublish =>
    obtain ⟨-, rfl⟩ := opened_of_publish hpublish
    rfl
  | refuse => rfl
  | subscribe => cases hx
  | unsubscribe => cases hx
  | begin hstage houtbox hencode => rw [takeUp_of_encode hstage houtbox hencode]
  | stick hstage houtbox hencode =>
    rw [takeUp_of_error hstage houtbox hencode]
    rfl
  | write hstage count => rw [write_of_stage hstage]
  | read hstage data => rw [read_of_stage hstage]
  | hand hgive =>
    obtain ⟨-, -, rfl⟩ := decode_of_handed hgive
    rfl
  | rest hstage hgive hopen =>
    obtain ⟨-, rfl⟩ := decode_of_rested hstage hgive hopen
    rfl
  | breakOff hstage hgive hclosed =>
    obtain ⟨-, rfl⟩ := decode_of_broken hstage hgive hclosed
    rfl
  | hangUp hstage =>
    rw [hangUp_of_stage hstage]
    rfl
  | letGo hstage houtbox =>
    rw [letGo_of_stage hstage houtbox]
    rfl

/-- The subscriptions are told by the history. -/
theorem Step.reflects (h : Step l x l') (hl : Reflects history.changes l.subscriptions) :
    Reflects (changes (history ++ [x])) l'.subscriptions := by
  cases hx : x.change? with
  | none => rwa [h.subscriptions_eq hx, changes_concat_of_none hx]
  | some change =>
    rw [changes_concat_of_some hx]
    cases h with
    | subscribe pattern listener =>
      cases hx
      exact hl.add pattern listener
    | unsubscribe id =>
      cases hx
      exact hl.remove id
    | _ => cases hx

/-- In any run, nothing passes over a link that has ended. -/
theorem Run.ended (h : Run history l) : Ended history l := by
  induction h with
  | start =>
    refine ⟨⟨nofun, nofun⟩, fun before y after hsplit => ?_⟩
    cases before <;> cases hsplit
  | step _ hstep ih => exact ih.step hstep

/-- In any run, what was taken has been written, is being written, or waits. -/
theorem Run.sends (h : Run history l) : Sends history l := by
  induction h with
  | start =>
    exact ⟨nofun, List.prefix_rfl, fun _ => rfl, List.prefix_rfl, fun _ => rfl, nofun, nofun⟩
  | step _ hstep ih => exact ih.step hstep

/-- In any run, the subscriptions in force are what the changes have made of them. -/
theorem Run.reflects (h : Run history l) : Reflects history.changes l.subscriptions := by
  induction h with
  | start => exact Subscriptions.reflects_empty
  | step _ hstep ih => exact hstep.reflects ih

/-- Whenever a message was handed out, it went to the subscriptions that were in force then. -/
theorem Run.recipients (h : Run history l) {before after : History α} {m : Message}
    {recipients : List (Subscription α)}
    (hsplit : history = before ++ .handed m recipients :: after) :
    HandedOut before.changes m recipients := by
  induction h generalizing after with
  | start => cases before <;> cases hsplit
  | step hrun hstep ih =>
    rcases split_concat hsplit with ⟨rfl, rfl, -⟩ | ⟨rest, -, hbefore⟩
    · cases hstep with
      | hand hgive =>
        obtain rfl := recipients_of_handed hgive
        exact hrun.reflects.handedOut m
    · exact ih hbefore

/-- In any run, what was read has been handed out or is in the buffer. -/
theorem Run.receives (h : Run history l) : Receives history l := by
  induction h with
  | start => exact ⟨⟨[], .nil, rfl⟩, nofun, fun _ _ => rfl⟩
  | step _ hstep ih => exact ih.step hstep

end Flotilla.Link
