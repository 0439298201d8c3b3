import Flotilla.Proofs.Channels.Link
import Flotilla.Proofs.Requests.Settling

/-!
# Messages that are too large for a frame

Whether a message fits into a frame shows only when the link turns to it, long after it was taken.
One that does not fit drops the link: everything in front of it has been written, everything behind
it is lost, and whoever waits for replies over the link waits in vain (`Link.keeps_iff`). As long as
the stream holds, nothing else but a frame from the peer that cannot be read does such harm.
-/

namespace Flotilla.Link

open Flotilla.Frame (fits frames)
open History

variable {α : Type} {history : History α} {l l' : Link α} {x : Happening α}

/-- Every message that was taken and fits is written, or is being written or waits on a link that
has not dropped. -/
structure Keeps (history : History α) (l : Link α) : Prop where
  queued : history.accepted.filter fits = history.begun ++ l.outbox.filter fits
  framed : frames history.begun = l.written ++ l.unsent

/-- What becomes of requests whose messages go over a link: when it has dropped, none can be
answered. -/
def attend (l : Link α) (c : Correlator) : Correlator := if l.isClosed then c.close.2 else c

/-- What was taken and neither turned to nor kept: nothing, or a message that does not fit and what
was taken behind it, or what was waiting when a frame came in that cannot be read. -/
structure Loses (history : History α) (l : Link α) (lost : List Message) : Prop where
  taken : history.accepted = history.begun ++ l.outbox ++ lost
  framed : frames history.begun = l.written ++ l.unsent
  cause : lost ≠ [] →
    (∃ m rest, lost = m :: rest ∧ fits m = false ∧ .stuck m ∈ history) ∨ .broken ∈ history

/-- All that can happen in the step in which a link drops. -/
theorem Step.drops (h : Step l x l') (hopen : l.isClosed = false) (hclosed : l'.isClosed = true) :
    l' = l.drop ∧ x.taken? = none ∧ x.begun? = none ∧
      (x = .hungUp ∨ l.unsent = [] ∧
        ((∃ m rest, x = .stuck m ∧ l.outbox = m :: rest ∧ fits m = false) ∨ x = .broken ∨
          x = .letGo ∧ l.outbox = [])) := by
  have hends := (h.isClosed_iff hopen).1 hclosed
  cases h with
  | publish => exact hends.elim
  | refuse => exact hends.elim
  | subscribe => exact hends.elim
  | unsubscribe => exact hends.elim
  | begin => exact hends.elim
  | @stick m rest fault hstage houtbox hencode =>
    exact ⟨takeUp_of_error hstage houtbox hencode, rfl, rfl, Or.inr
      ⟨unsent_of_stage fun _ hwriting => (nomatch hstage.symm.trans hwriting),
        Or.inl ⟨m, rest, rfl, houtbox, Frame.not_fits_of_encode hencode⟩⟩⟩
  | write => exact hends.elim
  | read => exact hends.elim
  | hand => exact hends.elim
  | rest => exact hends.elim
  | breakOff hstage hgive =>
    exact ⟨(decode_of_broken hstage hgive hclosed).2, rfl, rfl, Or.inr
      ⟨unsent_of_stage fun _ hwriting => (nomatch hstage.symm.trans hwriting), Or.inr (Or.inl rfl)⟩⟩
  | hangUp hstage => exact ⟨hangUp_of_stage hstage, rfl, rfl, Or.inl rfl⟩
  | letGo hstage houtbox =>
    exact ⟨letGo_of_stage hstage houtbox, rfl, rfl, Or.inr
      ⟨unsent_of_stage fun _ hwriting => (nomatch hstage.symm.trans hwriting),
        Or.inr (Or.inr ⟨rfl, houtbox⟩)⟩⟩

/-- A link that has not dropped has lost nothing. -/
theorem loses_of_open (h : Sends history l) (hopen : l.isClosed = false) : Loses history l [] := by
  refine ⟨?_, h.framed hopen, fun hne => absurd rfl hne⟩
  rw [List.append_nil]
  exact h.queued hopen

/-- Unless somebody hangs up, a step loses nothing, or a message that does not fit with those behind
it, or what waits when a frame cannot be read. -/
theorem Loses.step {lost : List Message} (h : Loses history l lost) (hrun : Run history l)
    (hstep : Step l x l') (hheld : x ≠ .hungUp) : ∃ lost, Loses (history ++ [x]) l' lost := by
  cases hclosed : l.isClosed with
  | true =>
    obtain ⟨hidle, hstill⟩ := hstep.idle_of_closed hclosed
    have haccepted : accepted (history ++ [x]) = history.accepted :=
      filterMap_concat_of_none hidle.taken
    have hbegun : begun (history ++ [x]) = history.begun := filterMap_concat_of_none hidle.begun
    have hunsent : l'.unsent = l.unsent := by rw [unsent, unsent, hstill.stage]
    refine ⟨lost, ?_, ?_, fun hne => (h.cause hne).imp ?_ (List.mem_append_left _)⟩
    · rw [haccepted, hbegun, hstill.outbox]
      exact h.taken
    · rw [hbegun, hstill.written, hunsent]
      exact h.framed
    · rintro ⟨m, rest, hlost, hfits, hm⟩
      exact ⟨m, rest, hlost, hfits, List.mem_append_left _ hm⟩
  | false =>
    cases hclosed' : l'.isClosed with
    | false => exact ⟨[], loses_of_open (hrun.sends.step hstep) hclosed'⟩
    | true =>
      obtain ⟨rfl, htaken, hbegun?, hhung | ⟨hunsent, hcause⟩⟩ := hstep.drops hclosed hclosed'
      · exact absurd hhung hheld
      have haccepted : accepted (history ++ [x]) = history.accepted :=
        filterMap_concat_of_none htaken
      have hbegun : begun (history ++ [x]) = history.begun := filterMap_concat_of_none hbegun?
      have hlast : x ∈ history ++ [x] := List.mem_append_right _ (List.mem_singleton_self x)
      refine ⟨l.outbox, ?_, ?_, fun hne => ?_⟩
      · rw [haccepted, hbegun, hrun.sends.queued hclosed]
        exact congrArg (· ++ l.outbox) (List.append_nil _).symm
      · rw [hbegun, hrun.sends.framed hclosed, hunsent]
        rfl
      · rcases hcause with ⟨m, rest, rfl, houtbox, hfits⟩ | rfl | ⟨-, hempty⟩
        · exact Or.inl ⟨m, rest, houtbox, hfits, hlast⟩
        · exact Or.inr hlast
        · exact absurd hempty hne

/-- As long as the stream holds, only these things are lost. -/
theorem Run.loses (h : Run history l) (hheld : .hungUp ∉ history) :
    ∃ lost, Loses history l lost := by
  induction h with
  | start => exact ⟨[], loses_of_open Run.start.sends rfl⟩
  | step hrun hstep ih =>
    rw [List.mem_append, not_or, List.mem_singleton] at hheld
    obtain ⟨lost, hlost⟩ := ih hheld.1
    exact hlost.step hrun hstep (Ne.symm hheld.2)

/-- Everything is kept if nothing that fits is lost. -/
theorem Loses.keeps_iff {lost : List Message} (h : Loses history l lost) (hrun : Run history l) :
    Keeps history l ↔ ∀ m ∈ lost, fits m = false := by
  have hbegun : history.begun.filter fits = history.begun :=
    List.filter_eq_self.2 hrun.sends.fit
  have hfilter : history.accepted.filter fits =
      history.begun ++ l.outbox.filter fits ++ lost.filter fits := by
    rw [h.taken, List.filter_append, List.filter_append, hbegun]
  have hnone : (∀ m ∈ lost, fits m = false) ↔ lost.filter fits = [] := by
    simp only [List.filter_eq_nil_iff, Bool.not_eq_true]
  rw [hnone]
  constructor
  · intro hkeeps
    exact List.append_right_eq_self.1 (hfilter.symm.trans hkeeps.queued)
  · intro hlost
    exact ⟨by rw [hfilter, hlost, List.append_nil], h.framed⟩

/-- When a link has dropped, no request over it waits any more, and each that was waiting learns
that the channel was torn down. -/
theorem attend_of_closed (h : l.isClosed = true) (c : Correlator) :
    (attend l c).pending.entries = [] ∧
      ∀ key request, c.pending.get? key = some request → c.outcome? key = none →
        (attend l c).outcome? key =
          some (.error (.channelUnavailable request.replyTopic Correlator.tornDown)) := by
  rw [attend, if_pos h]
  have hpending := c.pending_close
  refine ⟨hpending, fun key request hget hnone => ?_⟩
  have hgone : c.close.2.pending.contains key = false := by
    rw [Table.contains, Table.get?, hpending]
    rfl
  rw [c.settles_close.outcome, hnone, hgone, hget]
  rfl

/-- As long as the stream holds, what was taken and fits is written or will be, except for what
waits when the link drops; and it drops when it turns to a message that does not fit. Then
everything in front of that message has been written, everything behind it is lost, and every
request over the link fails. A frame from the peer that cannot be read has the same effect.
Where neither happens, everything is kept, and requests go on waiting as long as somebody holds
the link. -/
theorem keeps_run (h : Run history l) (hheld : .hungUp ∉ history) :
    (∃ lost, Loses history l lost ∧ (Keeps history l ↔ ∀ m ∈ lost, fits m = false)) ∧
    (l.isClosed = true ↔ (∃ m, .stuck m ∈ history) ∨ .broken ∈ history ∨ .letGo ∈ history) ∧
    (∀ m, .stuck m ∈ history → fits m = false ∧ l.written = frames history.begun ∧
      ∃ lost, history.accepted = history.begun ++ m :: lost) ∧
    (∀ c, l.isClosed = true → (attend l c).pending.entries = [] ∧
      ∀ key request, c.pending.get? key = some request → c.outcome? key = none →
        (attend l c).outcome? key =
          some (.error (.channelUnavailable request.replyTopic Correlator.tornDown))) ∧
    ((∀ m, .stuck m ∉ history) → .broken ∉ history →
      Keeps history l ∧ (.letGo ∉ history → ∀ c, attend l c = c)) := by
  obtain ⟨lost, hlost⟩ := h.loses hheld
  have hkeeps := hlost.keeps_iff h
  have hclosed : l.isClosed = true ↔
      (∃ m, .stuck m ∈ history) ∨ .broken ∈ history ∨ .letGo ∈ history := by
    rw [h.ended.closed_iff]
    constructor
    · rintro ⟨x, hx, hends⟩
      cases x with
      | stuck m => exact Or.inl ⟨m, hx⟩
      | broken => exact Or.inr (Or.inl hx)
      | letGo => exact Or.inr (Or.inr hx)
      | hungUp => exact absurd hx hheld
      | _ => exact hends.elim
    · rintro (⟨m, hm⟩ | hbroken | hleft)
      · exact ⟨_, hm, trivial⟩
      · exact ⟨_, hbroken, trivial⟩
      · exact ⟨_, hleft, trivial⟩
  refine ⟨⟨lost, hlost, hkeeps⟩, hclosed, fun m hm => (h.sends.stuck m hm).2,
    fun c hended => attend_of_closed hended c, fun hfree hread => ⟨?_, fun hheldOn c => ?_⟩⟩
  · have hnone : lost = [] := by
      by_contra hne
      rcases hlost.cause hne with ⟨m, -, -, -, hm⟩ | hbroken
      · exact hfree m hm
      · exact hread hbroken
    rw [hkeeps, hnone]
    exact nofun
  · have hopen : ¬l.isClosed = true := by
      rw [hclosed]
      rintro (⟨m, hm⟩ | hbroken | hleft)
      · exact hfree m hm
      · exact hread hbroken
      · exact hheldOn hleft
    rw [attend, if_neg hopen]

/-- A message without content. -/
def note (topic : String) : Message := .new topic 0 [] 0

/-- A message that does not fit. -/
def bulky : Message := .new "b" 0 (List.replicate (maxFrameBody + 1) 0) 0

/-- Three messages are taken, of which the second does not fit. -/
def cloggedHistory : History Unit :=
  [.accepted (note "a"), .accepted bulky, .accepted (note "c"), .begun (note "a"),
    .wrote (Frame.frame (note "a")), .stuck bulky]

/-- The first message has been written; the third is lost. -/
def cloggedLink : Link Unit := ⟨.empty, [], Frame.frame (note "a"), .new, .ended⟩

private theorem not_fits_bulky : fits bulky = false := by
  have hpayload : bulky.payload.length ≤ (Wire.putBytes 4 bulky.payload).length :=
    Wire.length_le_putBytes 4 bulky.payload
  have hlength : bulky.payload.length = maxFrameBody + 1 := List.length_replicate
  refine decide_eq_false ?_
  simp only [Message.toBytes, List.length_append]
  omega

private theorem encode_bulky : ∃ fault, Frame.encode bulky = .error fault := by
  cases h : Frame.encode bulky with
  | error fault => exact ⟨fault, rfl⟩
  | ok bytes => cases not_fits_bulky.symm.trans (Frame.fits_of_encode h).1

private theorem fits_note_a : fits (note "a") = true := by decide +kernel

private theorem fits_note_c : fits (note "c") = true := by decide +kernel

private theorem run_clogged : Run cloggedHistory cloggedLink := by
  obtain ⟨fault, hbulky⟩ := encode_bulky
  have htaken : Run [.accepted (note "a"), .accepted bulky, .accepted (note "c")]
      (⟨.empty, [note "a", bulky, note "c"], [], .new, .waiting⟩ : Link Unit) :=
    ((Run.start.step (.publish rfl rfl)).step (.publish rfl rfl)).step (.publish rfl rfl)
  have hbegun := htaken.step (.begin rfl rfl (Frame.encode_of_fits fits_note_a))
  rw [takeUp_of_encode rfl rfl (Frame.encode_of_fits fits_note_a)] at hbegun
  have hwrote := hbegun.step (.write rfl (Frame.frame (note "a")).length)
  rw [write_of_stage rfl, List.take_length, if_pos (Nat.le_refl _)] at hwrote
  have hstuck := hwrote.step (.stick rfl rfl hbulky)
  rw [takeUp_of_error rfl rfl hbulky] at hstuck
  exact hstuck

/-- The stream holds and the peer reads on, and yet the link drops, a message that fits is lost, and
the requests of everybody fail. -/
theorem clogged_loses : Run cloggedHistory cloggedLink ∧
    (.hungUp ∉ cloggedHistory ∧ .broken ∉ cloggedHistory ∧ .letGo ∉ cloggedHistory) ∧
    (note "c" ∈ cloggedHistory.accepted ∧ fits (note "c") = true) ∧
    ¬Keeps cloggedHistory cloggedLink ∧ cloggedLink.isClosed = true ∧
    ∀ c, (attend cloggedLink c).pending.entries = [] := by
  have haccepted : cloggedHistory.accepted = [note "a", bulky, note "c"] := rfl
  refine ⟨run_clogged, by simp [cloggedHistory], ⟨?_, fits_note_c⟩, fun hkeeps => ?_, rfl,
    fun c => (attend_of_closed rfl c).1⟩
  · rw [haccepted]
    exact List.mem_cons_of_mem _ (List.mem_cons_of_mem _ (List.mem_singleton_self _))
  · have hqueued := hkeeps.queued
    rw [haccepted, List.filter_cons_of_pos fits_note_a,
      List.filter_cons_of_neg (Bool.eq_false_iff.1 not_fits_bulky),
      List.filter_cons_of_pos fits_note_c] at hqueued
    cases congrArg List.length hqueued

/-- What is lost begins with the message that does not fit. -/
theorem keeps_run_clogged : .hungUp ∉ cloggedHistory ∧
    (∃ lost, Loses cloggedHistory cloggedLink lost ∧
      (Keeps cloggedHistory cloggedLink ↔ ∀ m ∈ lost, fits m = false)) ∧
    cloggedLink.written = frames cloggedHistory.begun := by
  have hheld : .hungUp ∉ cloggedHistory := by simp [cloggedHistory]
  have hstuck : .stuck bulky ∈ cloggedHistory := by simp [cloggedHistory]
  obtain ⟨hlost, -, hwritten, -⟩ := keeps_run run_clogged hheld
  exact ⟨hheld, hlost, (hwritten bulky hstuck).2.1⟩

end Flotilla.Link
