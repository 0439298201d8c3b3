import Flotilla.Proofs.Channels.Link

/-!
# From one end of a stream to the other

A link hands out the messages of the bytes that came in, all of them before it drops, each to the
subscriptions in force that cover its topic, and writes the frames of the messages that were taken
(`Link.Carries`). So between two links what is handed out at one end has been taken at the other, in
the same order. As long as neither has dropped, nothing is missing but what is on its way; and where
both tasks get their turns and the stream carries on, everything arrives, or the sender drops for
good, or both tasks go on writing for ever (`Link.carries_run`).

A stream takes what is written as long as something is read at its other end (`Link.Pipe.takes`),
and the task of a link reads nothing while it writes. So two tasks that write at the same time can
wait for each other, with everything that they have taken and without an end of either link
(`Link.stalled_forever`).
-/

namespace Flotilla.Link

open Flotilla.Frame (fits frames messages)
open Subscriptions (HandedOut)
open History

variable {α β : Type}

/-- What a link has handed out and what it has written. -/
structure Carries (history : History α) (l : Link α) : Prop where
  /-- The messages of the bytes that came in are handed out in order, each once. -/
  inOrder : history.handedOut ++ messages l.decoder.buffer = messages history.received
  /-- None is left, up to the first frame that cannot be read, when the task turns to something
  else and when the link has dropped. -/
  complete : l.stage ≠ .giving → history.handedOut = messages history.received
  /-- A frame that cannot be read drops the link. -/
  sound : l.stage ≠ .giving → l.isClosed = false →
    (Frame.decode l.decoder.buffer).1 = .incomplete
  /-- Each message goes to the subscriptions that are in force when it is handed out. -/
  recipients : ∀ (before : History α) m recipients after,
    history = before ++ .handed m recipients :: after → HandedOut before.changes m recipients
  /-- The bytes that were written are the frames of the messages that were taken, in order. -/
  sent : l.written <+: frames history.accepted
  closed_iff : l.isClosed = true ↔ ∃ x ∈ history, x.Ends
  /-- When the link has dropped, nothing more is handed out. -/
  idle : ∀ before y after, history = before ++ y :: after → y.Ends → ∀ z ∈ after, z.Idle
  refuses : l.isClosed = true →
    ∀ m, l.publish m = .error (.channelUnavailable m.topic "link closed")

section

variable {history : History α} {l l' : Link α} {x : Happening α}

/-- What was handed out and what the buffer still holds are the messages of what has come in. -/
theorem Receives.messages_eq (h : Receives history l) :
    history.handedOut ++ messages l.decoder.buffer = messages history.received := by
  obtain ⟨parts, hparts, hreceived⟩ := h.cut
  rw [hreceived, Frame.messages_flatten hparts]

/-- All that came in has been handed out, up to the first frame that cannot be read. -/
theorem Receives.handedOut_eq (h : Receives history l) (hstage : l.stage ≠ .giving) :
    history.handedOut = messages history.received := by
  rw [← h.messages_eq, Frame.messages_eq_nil (h.resting hstage), List.append_nil]

/-- A run hands out, in order, messages of what has come in. -/
theorem Run.carries (h : Run history l) : Carries history l where
  inOrder := h.receives.messages_eq
  complete := h.receives.handedOut_eq
  sound := h.receives.sound
  recipients _ _ _ _ hsplit := h.recipients hsplit
  sent := h.sends.sent.trans (Frame.frames_isPrefix h.sends.inOrder)
  closed_iff := h.ended.closed_iff
  idle := h.ended.idle
  refuses := refuses_of_closed

end

section

variable {sent : History α} {a : Link α} {seen : History β} {b : Link β}

/-- What is handed out at one end has been taken at the other, in the same order. -/
theorem Run.handedOut_isPrefix (ha : Run sent a) (hb : Run seen b)
    (hstream : seen.received <+: a.written) : seen.handedOut <+: sent.accepted := by
  have hbrought : messages (frames sent.begun) = sent.begun := Frame.messages_frames ha.sends.fit
  have hwritten : messages a.written <+: sent.begun :=
    hbrought ▸ Frame.messages_isPrefix ha.sends.sent
  have hseen : seen.handedOut <+: messages seen.received :=
    hb.receives.messages_eq ▸ List.prefix_append ..
  exact ((hseen.trans (Frame.messages_isPrefix hstream)).trans hwritten).trans ha.sends.inOrder

/-- Where nothing is on its way, nothing is missing. -/
theorem Run.handedOut_eq (ha : Run sent a) (hb : Run seen b) (hopen : a.isClosed = false)
    (hqueue : a.outbox = []) (hframe : a.unsent = []) (hstream : seen.received = a.written)
    (hstage : b.stage ≠ .giving) : seen.handedOut = sent.accepted := by
  have hbegun : sent.accepted = sent.begun := by
    rw [ha.sends.queued hopen, hqueue, List.append_nil]
  have hwritten : a.written = frames sent.begun := by
    rw [ha.sends.framed hopen, hframe, List.append_nil]
  rw [hb.receives.handedOut_eq hstage, hstream, hwritten, Frame.messages_frames ha.sends.fit,
    hbegun]

end

/-- A link over time: from one moment to the next nothing happens at it, or one thing. -/
structure Course (history : Nat → History α) (l : Nat → Link α) : Prop where
  start : Run (history 0) (l 0)
  next : ∀ n, history (n + 1) = history n ∧ l (n + 1) = l n ∨
    ∃ x, history (n + 1) = history n ++ [x] ∧ Step (l n) x (l (n + 1))

/-- The task of a link gets its turns: it goes on giving out what came in, and does not leave what
waits to be sent for ever. -/
structure Attended (history : Nat → History α) (l : Nat → Link α) : Prop
    extends Course history l where
  gives : ∀ n, (l n).stage = .giving → ∃ m ≥ n, (l m).stage ≠ .giving ∨
    (l m).decoder.buffer.length < (l n).decoder.buffer.length
  turns : ∀ n, (l n).stage = .waiting → (l n).outbox ≠ [] → ∃ m ≥ n, (l m).isClosed = true ∨
    (history n).begun.length < (history m).begun.length

/-- One direction of a stream. What one link has written comes in at the other while that waits for
it. What it is writing is taken, unless the other never waits again; and it hears when the other has
dropped. -/
structure Pipe (sent : Nat → History α) (a : Nat → Link α) (seen : Nat → History β)
    (b : Nat → Link β) : Prop where
  stream : ∀ n, (seen n).received <+: (a n).written
  arrives : ∀ n, (b n).stage = .waiting → (seen n).received ≠ (a n).written → ∃ m ≥ n,
    (b m).isClosed = true ∨ (seen n).received.length < (seen m).received.length
  takes : ∀ n rest, (a n).stage = .writing rest → ∃ m ≥ n, (∀ rest, (a m).stage ≠ .writing rest) ∨
    (a n).written.length < (a m).written.length ∨ ∀ k ≥ m, (b k).stage ≠ .waiting
  hears : ∀ n, (b n).isClosed = true → ∃ m ≥ n, (a m).isClosed = true

/-- Two links over one stream. -/
structure Joined (sent : Nat → History α) (a : Nat → Link α) (seen : Nat → History β)
    (b : Nat → Link β) : Prop where
  first : Attended sent a
  second : Attended seen b
  forth : Pipe sent a seen b
  back : Pipe seen b sent a

/-- From some moment on the task is in the middle of a frame, and turns to nothing else. -/
def WritesForever (l : Nat → Link α) : Prop := ∃ m, ∀ k ≥ m, ∃ rest, (l k).stage = .writing rest

/-- What has been written stays written. -/
theorem Step.written_isPrefix {l l' : Link α} {x : Happening α} (h : Step l x l') :
    l.written <+: l'.written := by
  cases h with
  | publish _ hpublish =>
    obtain ⟨-, rfl⟩ := opened_of_publish hpublish
    exact List.prefix_rfl
  | refuse => exact List.prefix_rfl
  | subscribe => exact List.prefix_rfl
  | unsubscribe => exact List.prefix_rfl
  | begin hstage houtbox hencode =>
    exact (takeUp_of_encode hstage houtbox hencode).symm ▸ List.prefix_rfl
  | stick hstage houtbox hencode =>
    exact (takeUp_of_error hstage houtbox hencode).symm ▸ List.prefix_rfl
  | write hstage =>
    rw [write_of_stage hstage]
    exact List.prefix_append ..
  | read hstage =>
    exact (read_of_stage hstage _).symm ▸ List.prefix_rfl
  | hand hgive =>
    obtain ⟨-, -, rfl⟩ := decode_of_handed hgive
    exact List.prefix_rfl
  | rest hstage hgive hopen =>
    obtain ⟨-, rfl⟩ := decode_of_rested hstage hgive hopen
    exact List.prefix_rfl
  | breakOff hstage hgive hclosed =>
    obtain ⟨-, rfl⟩ := decode_of_broken hstage hgive hclosed
    exact List.prefix_rfl
  | hangUp hstage =>
    exact (hangUp_of_stage hstage).symm ▸ List.prefix_rfl
  | letGo hstage houtbox =>
    exact (letGo_of_stage hstage houtbox).symm ▸ List.prefix_rfl

/-- While messages are given out, the buffer does not grow; afterwards the task waits, or the link
has dropped. -/
theorem Step.of_giving {l l' : Link α} {x : Happening α} (h : Step l x l')
    (hgiving : l.stage = .giving) :
    (l'.stage = .giving ∧ l'.decoder.buffer.length ≤ l.decoder.buffer.length) ∨
      l'.stage = .waiting ∨ l'.isClosed = true := by
  cases h with
  | publish _ hpublish =>
    obtain ⟨-, rfl⟩ := opened_of_publish hpublish
    exact Or.inl ⟨hgiving, Nat.le_refl _⟩
  | refuse => exact Or.inl ⟨hgiving, Nat.le_refl _⟩
  | subscribe => exact Or.inl ⟨hgiving, Nat.le_refl _⟩
  | unsubscribe => exact Or.inl ⟨hgiving, Nat.le_refl _⟩
  | begin hstage => cases hgiving.symm.trans hstage
  | stick hstage => cases hgiving.symm.trans hstage
  | write hstage => cases hgiving.symm.trans hstage
  | read hstage => cases hgiving.symm.trans hstage
  | hand hgive =>
    obtain ⟨-, hdecode, rfl⟩ := decode_of_handed hgive
    refine Or.inl ⟨hgiving, Nat.le_of_lt (Frame.length_lt_of_decode _ ?_)⟩
    rw [hdecode]
    rfl
  | rest hstage hgive hopen =>
    obtain ⟨-, rfl⟩ := decode_of_rested hstage hgive hopen
    exact Or.inr (Or.inl rfl)
  | breakOff _ _ hclosed => exact Or.inr (Or.inr hclosed)
  | hangUp hstage => exact absurd hgiving hstage
  | letGo hstage => cases hgiving.symm.trans hstage

/-- A frame under way is written on; afterwards the task waits, or the link has dropped. -/
theorem Step.of_writing {l l' : Link α} {x : Happening α} (h : Step l x l') {rest : Bytes}
    (hwriting : l.stage = .writing rest) :
    (∃ left, l'.stage = .writing left ∧ l'.written ++ left = l.written ++ rest) ∨
      l'.stage = .waiting ∨ l'.isClosed = true := by
  cases h with
  | publish _ hpublish =>
    obtain ⟨-, rfl⟩ := opened_of_publish hpublish
    exact Or.inl ⟨rest, hwriting, rfl⟩
  | refuse => exact Or.inl ⟨rest, hwriting, rfl⟩
  | subscribe => exact Or.inl ⟨rest, hwriting, rfl⟩
  | unsubscribe => exact Or.inl ⟨rest, hwriting, rfl⟩
  | begin hstage => cases hwriting.symm.trans hstage
  | stick hstage => cases hwriting.symm.trans hstage
  | write hstage count =>
    cases hwriting.symm.trans hstage
    rw [write_of_stage hstage]
    by_cases hall : rest.length ≤ count
    · exact Or.inr (Or.inl (if_pos hall))
    · refine Or.inl ⟨rest.drop count, if_neg hall, ?_⟩
      rw [List.append_assoc, List.take_append_drop]
  | read hstage => cases hwriting.symm.trans hstage
  | hand hgive => cases hwriting.symm.trans (giving_of_handed hgive)
  | rest hstage => cases hwriting.symm.trans hstage
  | breakOff hstage => cases hwriting.symm.trans hstage
  | hangUp hstage =>
    rw [hangUp_of_stage hstage]
    exact Or.inr (Or.inr rfl)
  | letGo hstage => cases hwriting.symm.trans hstage

namespace Course

variable {history : Nat → History α} {l : Nat → Link α}

private theorem run (h : Course history l) (n : Nat) : Run (history n) (l n) := by
  induction n with
  | zero => exact h.start
  | succ n ih =>
    rcases h.next n with ⟨hsame, hlink⟩ | ⟨x, hlonger, hstep⟩
    · rwa [hsame, hlink]
    · rw [hlonger]
      exact ih.step hstep

/-- Histories grow. -/
theorem history_isPrefix (h : Course history l) {n m : Nat} (hm : n ≤ m) :
    history n <+: history m := by
  refine isPrefix_of_le (fun k => ?_) hm
  rcases h.next k with ⟨hsame, -⟩ | ⟨x, hlonger, -⟩
  · exact hsame ▸ List.prefix_rfl
  · rw [hlonger]
    exact List.prefix_append ..

private theorem accepted_isPrefix (h : Course history l) {n m : Nat} (hm : n ≤ m) :
    (history n).accepted <+: (history m).accepted :=
  (h.history_isPrefix hm).filterMap _

private theorem begun_isPrefix (h : Course history l) {n m : Nat} (hm : n ≤ m) :
    (history n).begun <+: (history m).begun :=
  (h.history_isPrefix hm).filterMap _

private theorem received_isPrefix (h : Course history l) {n m : Nat} (hm : n ≤ m) :
    (history n).received <+: (history m).received := by
  obtain ⟨more, hmore⟩ := h.history_isPrefix hm
  refine ⟨more.flatMap Happening.data, ?_⟩
  rw [← hmore, received, received, List.flatMap_append]

private theorem written_isPrefix (h : Course history l) {n m : Nat} (hm : n ≤ m) :
    (l n).written <+: (l m).written := by
  refine isPrefix_of_le (f := fun k => (l k).written) (fun k => ?_) hm
  rcases h.next k with ⟨-, hlink⟩ | ⟨x, -, hstep⟩
  · exact hlink ▸ List.prefix_rfl
  · exact hstep.written_isPrefix

/-- A link that has dropped stays so. -/
theorem closed_of_le (h : Course history l) {n m : Nat} (hm : n ≤ m)
    (hclosed : (l n).isClosed = true) : (l m).isClosed = true := by
  induction m, hm using Nat.le_induction with
  | base => exact hclosed
  | succ m _ ih =>
    rcases h.next m with ⟨-, hlink⟩ | ⟨x, -, hstep⟩
    · rwa [hlink]
    · exact hstep.closed_of_closed ih

end Course

namespace Course

variable {history : Nat → History α} {l : Nat → Link α} {n : Nat}

/-- A frame is written to its end, as long as it is taken. -/
theorem waits_of_writing (h : Course history l) (htakes : ∀ n rest, (l n).stage = .writing rest →
      ∃ m ≥ n, (∀ rest, (l m).stage ≠ .writing rest) ∨
        (l n).written.length < (l m).written.length)
    {rest : Bytes} (hwriting : (l n).stage = .writing rest) :
    ∃ m ≥ n, (l m).stage = .waiting ∨ (l m).isClosed = true := by
  -- with the number of bytes that are left of the frame
  induction hsize : rest.length using Nat.strong_induction_on generalizing n rest with
  | _ size ih =>
    obtain ⟨m, hm, hmore⟩ := htakes n rest hwriting
    have hgoesOn := holds_or_happens (n := n) (m := m)
      (P := fun k => ∃ left, (l k).stage = .writing left ∧
        (l k).written ++ left = (l n).written ++ rest)
      (Q := fun k => (l k).stage = .waiting ∨ (l k).isClosed = true)
      ⟨rest, hwriting, rfl⟩ (fun k _ hk => ?_) hm
    · rcases hgoesOn with ⟨left, hstill, hwhole⟩ | hdone
      · have hlonger := hmore.resolve_left fun hnone => hnone left hstill
        have hlength := congrArg List.length hwhole
        rw [List.length_append, List.length_append] at hlength
        obtain ⟨k, hk, hwaits⟩ := ih left.length (by omega) hstill rfl
        exact ⟨k, Nat.le_trans hm hk, hwaits⟩
      · exact hdone
    · obtain ⟨left, hleft, hwhole⟩ := hk
      rcases h.next k with ⟨-, hlink⟩ | ⟨x, -, hstep⟩
      · exact Or.inl ⟨left, hlink ▸ hleft, hlink ▸ hwhole⟩
      · refine (hstep.of_writing hleft).imp_left ?_
        rintro ⟨left', hleft', hwhole'⟩
        exact ⟨left', hleft', hwhole'.trans hwhole⟩

/-- A task that writes and never waits again writes for ever, unless the link drops. -/
theorem writing_of_le (h : Course history l) (hopen : ∀ n, (l n).isClosed = false)
    (hnever : ∀ m ≥ n, (l m).stage ≠ .waiting) {rest : Bytes}
    (hwriting : (l n).stage = .writing rest) {m : Nat} (hm : n ≤ m) :
    ∃ rest, (l m).stage = .writing rest := by
  induction m, hm using Nat.le_induction with
  | base => exact ⟨rest, hwriting⟩
  | succ m hm ih =>
    obtain ⟨left, hleft⟩ := ih
    rcases h.next m with ⟨-, hlink⟩ | ⟨x, -, hstep⟩
    · exact ⟨left, hlink ▸ hleft⟩
    · rcases hstep.of_writing hleft with ⟨left', hleft', -⟩ | hwaiting | hclosed
      · exact ⟨left', hleft'⟩
      · exact absurd hwaiting (hnever (m + 1) (Nat.le_succ_of_le hm))
      · cases (hopen (m + 1)).symm.trans hclosed

end Course

namespace Attended

variable {history : Nat → History α} {l : Nat → Link α} {n : Nat}

/-- What came in is given out to its end. -/
theorem waits_of_giving (h : Attended history l) (hgiving : (l n).stage = .giving) :
    ∃ m ≥ n, (l m).stage = .waiting ∨ (l m).isClosed = true := by
  -- with the number of bytes that the decoder holds
  induction hsize : (l n).decoder.buffer.length using Nat.strong_induction_on generalizing n with
  | _ size ih =>
    obtain ⟨m, hm, hless⟩ := h.gives n hgiving
    have hgoesOn := holds_or_happens (n := n) (m := m)
      (P := fun k => (l k).stage = .giving ∧
        (l k).decoder.buffer.length ≤ (l n).decoder.buffer.length)
      (Q := fun k => (l k).stage = .waiting ∨ (l k).isClosed = true)
      ⟨hgiving, Nat.le_refl _⟩ (fun k _ hk => ?_) hm
    · rcases hgoesOn with ⟨hstill, -⟩ | hdone
      · have hshorter := hless.resolve_left (not_not_intro hstill)
        obtain ⟨k, hk, hwaits⟩ := ih _ (hsize ▸ hshorter) hstill rfl
        exact ⟨k, Nat.le_trans hm hk, hwaits⟩
      · exact hdone
    · rcases h.next k with ⟨-, hlink⟩ | ⟨x, -, hstep⟩
      · exact Or.inl (hlink ▸ hk)
      · exact (hstep.of_giving hk.1).imp_left fun hnext =>
          ⟨hnext.1, Nat.le_trans hnext.2 hk.2⟩

/-- The task of a link that does not drop waits again and again, or writes for ever. -/
theorem waits_or_writes (h : Attended history l) (hopen : ∀ n, (l n).isClosed = false) :
    (∀ n, ∃ m ≥ n, (l m).stage = .waiting) ∨ WritesForever l := by
  by_contra hneither
  push Not at hneither
  obtain ⟨⟨n, hnever⟩, hforever⟩ := hneither
  cases hstage : (l n).stage with
  | waiting => exact hnever n (Nat.le_refl n) hstage
  | writing rest =>
    exact hforever ⟨n, fun k hk => h.toCourse.writing_of_le hopen hnever hstage hk⟩
  | giving =>
    obtain ⟨m, hm, hwaiting | hclosed⟩ := h.waits_of_giving hstage
    · exact hnever m hm hwaiting
    · cases (hopen m).symm.trans hclosed
  | ended => cases (hopen n).symm.trans (isClosed_eq_true_iff.2 hstage)

/-- A task that waits again and again turns to everything that was taken in the end. -/
theorem begins (h : Attended history l) (hopen : ∀ n, (l n).isClosed = false)
    (hwaits : ∀ n, ∃ m ≥ n, (l m).stage = .waiting) (n : Nat) :
    ∃ m ≥ n, (history n).accepted <+: (history m).begun := by
  -- by induction on how many messages have not been turned to
  suffices hleft : ∀ count k, n ≤ k →
      (history n).accepted.length ≤ (history k).begun.length + count →
      ∃ m ≥ k, (history n).accepted <+: (history m).begun from
    hleft (history n).accepted.length n (Nat.le_refl n) (Nat.le_add_left ..)
  intro count
  induction count with
  | zero =>
    intro k hk hall
    exact ⟨k, Nat.le_refl k, List.prefix_of_prefix_length_le (h.accepted_isPrefix hk)
      (h.run k).sends.inOrder hall⟩
  | succ count ih =>
    intro k hk hcount
    obtain ⟨j, hj, hwaiting⟩ := hwaits k
    have hqueued := (h.run j).sends.queued (hopen j)
    by_cases hempty : (l j).outbox = []
    · rw [hempty, List.append_nil] at hqueued
      exact ⟨j, hj, hqueued ▸ h.accepted_isPrefix (Nat.le_trans hk hj)⟩
    · obtain ⟨m, hm, hclosed | hmore⟩ := h.turns j hwaiting hempty
      · cases (hopen m).symm.trans hclosed
      · have hkept := (h.begun_isPrefix hj).length_le
        have hkm : k ≤ m := Nat.le_trans hj hm
        obtain ⟨i, hi, hdone⟩ := ih m (Nat.le_trans hk hkm) (by omega)
        exact ⟨i, Nat.le_trans hkm hi, hdone⟩

/-- When the task waits, everything that was turned to has been written. -/
theorem writesOut (h : Attended history l) (hwaits : ∀ n, ∃ m ≥ n, (l m).stage = .waiting)
    (n : Nat) : ∃ m ≥ n, frames (history n).begun <+: (l m).written := by
  obtain ⟨m, hm, hwaiting⟩ := hwaits n
  refine ⟨m, hm, ?_⟩
  rw [(h.run m).sends.written_of_waiting hwaiting]
  exact Frame.frames_isPrefix (h.begun_isPrefix hm)

end Attended

section

variable {sent : Nat → History α} {a : Nat → Link α} {seen : Nat → History β} {b : Nat → Link β}

/-- Where something is read at the other end again and again, a frame is written to its end. -/
theorem Pipe.waits (h : Pipe sent a seen b) (ha : Attended sent a)
    (hopen : ∀ n, (a n).isClosed = false) (hreads : ∀ n, ∃ m ≥ n, (b m).stage = .waiting)
    (n : Nat) :
    ∃ m ≥ n, (a m).stage = .waiting := by
  have htakes (j : Nat) (rest : Bytes) (hj : (a j).stage = .writing rest) :
      ∃ i ≥ j, (∀ rest, (a i).stage ≠ .writing rest) ∨
        (a j).written.length < (a i).written.length := by
    obtain ⟨i, hi, hdone | hmore | hnever⟩ := h.takes j rest hj
    · exact ⟨i, hi, Or.inl hdone⟩
    · exact ⟨i, hi, Or.inr hmore⟩
    · obtain ⟨k, hk, hwaiting⟩ := hreads i
      exact absurd hwaiting (hnever k hk)
  refine (ha.waits_or_writes hopen).elim (fun hwaits => hwaits n) ?_
  rintro ⟨m, hforever⟩
  obtain ⟨rest, hwriting⟩ := hforever m (Nat.le_refl m)
  obtain ⟨k, hk, hwaiting | hclosed⟩ := ha.toCourse.waits_of_writing htakes hwriting
  · obtain ⟨left, hleft⟩ := hforever k hk
    cases hwaiting.symm.trans hleft
  · cases (hopen k).symm.trans hclosed

/-- What has been written comes in in the end. -/
theorem Pipe.readsIn (h : Pipe sent a seen b) (ha : Attended sent a) (hb : Attended seen b)
    (hopen : ∀ n, (b n).isClosed = false) (hreads : ∀ n, ∃ m ≥ n, (b m).stage = .waiting)
    (n : Nat) :
    ∃ m ≥ n, (a n).written <+: (seen m).received := by
  -- by induction on how many bytes have not come in
  suffices hleft : ∀ count k, n ≤ k →
      (a n).written.length ≤ (seen k).received.length + count →
      ∃ m ≥ k, (a n).written <+: (seen m).received from
    hleft (a n).written.length n (Nat.le_refl n) (Nat.le_add_left ..)
  intro count
  induction count with
  | zero =>
    intro k hk hall
    exact ⟨k, Nat.le_refl k, List.prefix_of_prefix_length_le (ha.written_isPrefix hk)
      (h.stream k) hall⟩
  | succ count ih =>
    intro k hk hcount
    obtain ⟨j, hj, hwaiting⟩ := hreads k
    by_cases hall : (seen j).received = (a j).written
    · exact ⟨j, hj, hall ▸ ha.written_isPrefix (Nat.le_trans hk hj)⟩
    · obtain ⟨m, hm, hclosed | hmore⟩ := h.arrives j hwaiting hall
      · cases (hopen m).symm.trans hclosed
      · have hkept := (hb.received_isPrefix hj).length_le
        have hkm : k ≤ m := Nat.le_trans hj hm
        obtain ⟨i, hi, hdone⟩ := ih m (Nat.le_trans hk hkm) (by omega)
        exact ⟨i, Nat.le_trans hkm hi, hdone⟩

/-- Where both tasks wait again and again, what was taken at one end is handed out at the other. -/
theorem Pipe.handsOut (h : Pipe sent a seen b) (ha : Attended sent a) (hb : Attended seen b)
    (hopen : ∀ n, (a n).isClosed = false) (hopen' : ∀ n, (b n).isClosed = false)
    (hwaits : ∀ n, ∃ m ≥ n, (a m).stage = .waiting)
    (hreads : ∀ n, ∃ m ≥ n, (b m).stage = .waiting) (n : Nat) :
    ∃ m ≥ n, (sent n).accepted <+: (seen m).handedOut := by
  obtain ⟨turned, hturned, hbegun⟩ := ha.begins hopen hwaits n
  obtain ⟨out, hout, hwritten⟩ := ha.writesOut hwaits turned
  obtain ⟨came, hcame, hreceived⟩ := h.readsIn ha hb hopen' hreads out
  obtain ⟨m, hm, hwaiting⟩ := hreads came
  have hhanded : (seen m).handedOut = messages (seen m).received :=
    (hb.run m).receives.handedOut_eq (by rw [hwaiting]; nofun)
  have hbrought : messages (frames (sent turned).begun) = (sent turned).begun :=
    Frame.messages_frames (ha.run turned).sends.fit
  have hstream : frames (sent turned).begun <+: (seen m).received :=
    (hwritten.trans hreceived).trans (hb.received_isPrefix hm)
  refine ⟨m, by omega, hbegun.trans ?_⟩
  rw [hhanded, ← hbrought]
  exact Frame.messages_isPrefix hstream

/-- What was taken at one end is handed out at the other, or the sender drops for good, or both
tasks write for ever. -/
theorem Joined.arrives_or_ends (h : Joined sent a seen b) (n : Nat) :
    (∃ m ≥ n, (sent n).accepted <+: (seen m).handedOut) ∨
      (∃ m, ∀ k ≥ m, (a k).isClosed = true) ∨ WritesForever a ∧ WritesForever b := by
  by_cases hends : ∃ m, (a m).isClosed = true
  · obtain ⟨m, hclosed⟩ := hends
    exact Or.inr (Or.inl ⟨m, fun k hk => h.first.closed_of_le hk hclosed⟩)
  · have hopen (m : Nat) : (a m).isClosed = false :=
      Bool.eq_false_iff.2 fun hclosed => hends ⟨m, hclosed⟩
    have hopen' (m : Nat) : (b m).isClosed = false := Bool.eq_false_iff.2 fun hclosed => by
      obtain ⟨k, -, hheard⟩ := h.forth.hears m hclosed
      exact hends ⟨k, hheard⟩
    -- a task that waits again and again keeps the other from writing for ever
    rcases h.second.waits_or_writes hopen' with hreads | hforever
    · have hwaits := h.forth.waits h.first hopen hreads
      exact Or.inl (h.forth.handsOut h.first h.second hopen hopen' hwaits hreads n)
    · rcases h.first.waits_or_writes hopen with hwaits | hforever'
      · have hreads := h.back.waits h.second hopen' hwaits
        exact Or.inl (h.forth.handsOut h.first h.second hopen hopen' hwaits hreads n)
      · exact Or.inr (Or.inr ⟨hforever', hforever⟩)

end

/-- Over a link, the messages that are handed out are exactly those of the bytes that came in, in
order, each once, up to the first frame that cannot be read, and all of them before the link has
dropped, and each goes to the subscriptions in force that cover its topic; the bytes that are
written are at every point at the front of the frames of what was taken. Between two links that
share a stream, what is handed out at one end was taken at the other, in order, and where nothing is
on its way and the sender has not dropped, nothing is missing. Where the tasks of both get their
turns and the stream carries on, whatever was taken arrives, or the sender has dropped for good and
takes nothing more, or both tasks write for ever, and neither reads what the other has written. -/
theorem carries_run :
    (∀ (history : History α) (l : Link α), Run history l → Carries history l) ∧
    (∀ (sent : History α) (a : Link α) (seen : History β) (b : Link β), Run sent a → Run seen b →
      seen.received <+: a.written → seen.handedOut <+: sent.accepted ∧
        (a.isClosed = false → a.outbox = [] → a.unsent = [] → seen.received = a.written →
          b.stage ≠ .giving → seen.handedOut = sent.accepted)) ∧
    ∀ (sent : Nat → History α) (a : Nat → Link α) (seen : Nat → History β) (b : Nat → Link β),
      Joined sent a seen b → ∀ n, (∃ m ≥ n, (sent n).accepted <+: (seen m).handedOut) ∨
        (∃ m, ∀ k ≥ m, (a k).isClosed = true ∧
          ∀ message, (a k).publish message =
            .error (.channelUnavailable message.topic "link closed")) ∨
        WritesForever a ∧ WritesForever b := by
  refine ⟨fun _ _ hrun => hrun.carries, fun sent a seen b ha hb hstream =>
    ⟨ha.handedOut_isPrefix hb hstream, ha.handedOut_eq hb⟩, fun sent a seen b hjoined n => ?_⟩
  refine (hjoined.arrives_or_ends n).imp_right (Or.imp_left ?_)
  rintro ⟨m, hclosed⟩
  exact ⟨m, fun k hk => ⟨hclosed k hk, refuses_of_closed (hclosed k hk)⟩⟩

/-- A message without content has been taken and written. -/
def writtenHistory : History Unit :=
  [.accepted .blank, .begun .blank, .wrote [0, 0, 0, 0]]

/-- The link over which it was written. -/
def writtenLink : Link Unit := ⟨.empty, [], [0, 0, 0, 0], .new, .waiting⟩

/-- Its frame comes in in two pieces. -/
def piecesHistory : Nat → History Unit
  | 0 => []
  | 1 => [.received [0, 0]]
  | 2 => [.received [0, 0], .rested]
  | 3 => [.received [0, 0], .rested, .received [0, 0]]
  | 4 => [.received [0, 0], .rested, .received [0, 0], .handed .blank []]
  | _ => [.received [0, 0], .rested, .received [0, 0], .handed .blank [], .rested]

/-- The link over which it comes in. -/
def piecesLink : Nat → Link Unit
  | 0 => .new
  | 1 => { Link.new with decoder := ⟨[0, 0]⟩, stage := .giving }
  | 2 => { Link.new with decoder := ⟨[0, 0]⟩ }
  | 3 => { Link.new with decoder := ⟨[0, 0, 0, 0]⟩, stage := .giving }
  | 4 => { Link.new with stage := .giving }
  | _ => .new

private theorem run_written : Run writtenHistory writtenLink := by
  have htaken : Run [.accepted .blank] (⟨.empty, [.blank], [], .new, .waiting⟩ : Link Unit) :=
    Run.start.step (.publish rfl rfl)
  have hbegun := htaken.step (.begin rfl rfl rfl)
  have hwrote := hbegun.step (.write rfl 4)
  exact hwrote

private theorem attended_written : Attended (fun _ => writtenHistory) fun _ => writtenLink where
  start := run_written
  next _ := Or.inl ⟨rfl, rfl⟩
  gives _ := nofun
  turns _ _ hne := absurd rfl hne

private theorem course_pieces : Course piecesHistory piecesLink where
  start := .start
  next
    | 0 => Or.inr ⟨_, rfl, .read rfl [0, 0]⟩
    | 1 => Or.inr ⟨_, rfl, .rest rfl rfl rfl⟩
    | 2 => Or.inr ⟨_, rfl, .read rfl [0, 0]⟩
    | 3 => Or.inr ⟨_, rfl, .hand (by decide +kernel)⟩
    | 4 => Or.inr ⟨_, rfl, .rest rfl rfl rfl⟩
    | _ + 5 => Or.inl ⟨rfl, rfl⟩

private theorem attended_pieces : Attended piecesHistory piecesLink where
  toCourse := course_pieces
  gives n _ := ⟨n + 5, Nat.le_add_right n 5, Or.inl nofun⟩
  turns n _ hne := absurd (by unfold piecesLink; split <;> rfl) hne

private theorem joined_pieces : Joined (fun _ => writtenHistory) (fun _ => writtenLink)
    piecesHistory piecesLink where
  first := attended_written
  second := attended_pieces
  forth := {
    stream := fun n => by
      have hlast : (piecesHistory (n + 5)).received = writtenLink.written := rfl
      exact hlast ▸ course_pieces.received_isPrefix (Nat.le_add_right n 5)
    arrives := fun
      | 0 => fun _ _ => ⟨1, by decide, Or.inr (by decide)⟩
      | 1 => nofun
      | 2 => fun _ _ => ⟨3, by decide, Or.inr (by decide)⟩
      | 3 => nofun
      | 4 => nofun
      | _ + 5 => fun _ hne => absurd rfl hne
    takes := fun _ _ => nofun
    hears := fun n hclosed => by
      have hopen : (piecesLink n).isClosed = false := by unfold piecesLink; split <;> rfl
      cases hopen.symm.trans hclosed }
  back := {
    stream := fun n => List.nil_prefix
    arrives := fun n _ hne => by
      have hnone : (piecesLink n).written = [] := by unfold piecesLink; split <;> rfl
      exact absurd hnone.symm hne
    takes := fun n rest _ => ⟨n + 5, Nat.le_add_right n 5, Or.inl nofun⟩
    hears := fun _ => nofun }

/-- The message arrives, though its frame is cut. -/
theorem carries_run_pieces : Joined (fun _ => writtenHistory) (fun _ => writtenLink) piecesHistory
      piecesLink ∧
    Carries (piecesHistory 5) (piecesLink 5) ∧
    (piecesHistory 4).handedOut <+: writtenHistory.accepted ∧
    ∃ m ≥ 0, writtenHistory.accepted <+: (piecesHistory m).handedOut := by
  obtain ⟨hone, htwo, hrow⟩ := carries_run (α := Unit) (β := Unit)
  refine ⟨joined_pieces, hone _ _ (course_pieces.run 5),
    (htwo _ _ _ _ run_written (course_pieces.run 4) (joined_pieces.forth.stream 4)).1, ?_⟩
  rcases hrow _ _ _ _ joined_pieces 0 with harrives | ⟨m, hclosed⟩ | ⟨⟨m, hforever⟩, -⟩
  · exact harrives
  · cases (hclosed m (Nat.le_refl m)).1
  · obtain ⟨rest, hwriting⟩ := hforever m (Nat.le_refl m)
    cases hwriting

/-- A message has been taken, and so much of its frame has been written. -/
def stalledHistory (m : Message) (count : Nat) : History Unit :=
  [.accepted m, .begun m, .wrote ((Frame.frame m).take count)]

/-- The task of the link is in the middle of the frame. -/
def stalledLink (m : Message) (count : Nat) : Link Unit :=
  ⟨.empty, [], (Frame.frame m).take count, .new, .writing ((Frame.frame m).drop count)⟩

private theorem run_stalled {m : Message} {count : Nat} (hfits : fits m = true)
    (hcount : count < (Frame.frame m).length) :
    Run (stalledHistory m count) (stalledLink m count) := by
  have htaken : Run [.accepted m] (⟨.empty, [m], [], .new, .waiting⟩ : Link Unit) :=
    Run.start.step (.publish rfl rfl)
  have hbegun := htaken.step (.begin rfl rfl (Frame.encode_of_fits hfits))
  rw [takeUp_of_encode rfl rfl (Frame.encode_of_fits hfits)] at hbegun
  have hwrote := hbegun.step (.write rfl count)
  rw [write_of_stage rfl, if_neg (Nat.not_le.2 hcount)] at hwrote
  exact hwrote

/-- Two links each of which is in the middle of a frame can stay so. -/
theorem joined_stalled {m : Message} {count : Nat} (hfits : fits m = true)
    (hcount : count < (Frame.frame m).length) :
    Joined (fun _ => stalledHistory m count) (fun _ => stalledLink m count)
      (fun _ => stalledHistory m count) fun _ => stalledLink m count := by
  have hattended : Attended (fun _ => stalledHistory m count) fun _ => stalledLink m count :=
    ⟨⟨run_stalled hfits hcount, fun _ => Or.inl ⟨rfl, rfl⟩⟩, fun _ => nofun, fun _ => nofun⟩
  have hpipe : Pipe (fun _ => stalledHistory m count) (fun _ => stalledLink m count)
      (fun _ => stalledHistory m count) fun _ => stalledLink m count :=
    ⟨fun _ => List.nil_prefix, fun _ => nofun,
      fun n _ _ => ⟨n, Nat.le_refl n, Or.inr (Or.inr fun _ _ => nofun)⟩, fun _ => nofun⟩
  exact ⟨hattended, hattended, hpipe, hpipe⟩

/-- A message with 100000 bytes. -/
def parcel : Message := .new "b" 0 (List.replicate 100000 0) 0

private theorem length_parcel : parcel.toBytes.length = 100007 := by
  have hpayload : parcel.payload.length = 100000 := List.length_replicate
  have hfull : parcel.payload.isEmpty = false := rfl
  have htext : (Wire.putText 1 parcel.topic).length = 3 := by decide +kernel
  have hcount : (Wire.Varint.encode 100000).length = 3 := by decide +kernel
  have hbody : (Wire.putBytes 4 parcel.payload).length = 100004 := by
    rw [Wire.putBytes, hfull, if_neg Bool.false_ne_true, Wire.putBody, List.length_append,
      List.length_append, hpayload, hcount]
    decide +kernel
  simp only [Message.toBytes, List.length_append, htext, hbody]
  decide +kernel

/-- Each end has written 65536 bytes of its message, and its stream takes no more before something
is read. Nothing is handed out at either end from then on, and neither link drops. -/
theorem stalled_forever :
    Joined (fun _ => stalledHistory parcel 65536) (fun _ => stalledLink parcel 65536)
      (fun _ => stalledHistory parcel 65536) (fun _ => stalledLink parcel 65536) ∧
    ¬History.accepted (stalledHistory parcel 65536) <+:
      History.handedOut (stalledHistory parcel 65536) ∧
    (stalledLink parcel 65536).isClosed = false := by
  have hfits : fits parcel = true := decide_eq_true (by rw [length_parcel]; decide)
  have hcount : 65536 < (Frame.frame parcel).length := by
    rw [(Frame.isFrame_frame hfits).length, length_parcel]
    decide
  refine ⟨joined_stalled hfits hcount, fun hprefix => ?_, rfl⟩
  have hnone : ¬[parcel] <+: [] := by simp
  exact hnone hprefix

end Flotilla.Link
