import Flotilla.Correlator
import Mathlib.Data.List.Basic

/-!
# How requests leave the table

A request leaves the table of those that wait in one of five ways (`Fate`), and the way decides
what it comes to and which counter notes it. Each operation that takes requests out of the table
takes all of them out in one way: it settles them (`Correlator.Settles`), and touches none of the
others. Settling is transitive, so what holds of the removal of one request holds of any row.
-/

namespace Flotilla

/-- The way in which a request has left the table. -/
inductive Fate where
  /-- By this reply, which came in at this time. -/
  | answered (message : Message) (time : Nat)
  /-- At its deadline. -/
  | timedOut
  /-- It was called off. -/
  | cancelled
  /-- The channel was torn down. -/
  | tornDown
  /-- The channel refused its message. -/
  | withdrawn
  deriving DecidableEq, Repr

/-- The ways of leaving the table that are counted. -/
inductive Ending where
  | answered
  | timedOut
  | cancelled
  | tornDown
  deriving DecidableEq, Repr

namespace Fate

/-- How a fate is counted; nobody counts requests that were withdrawn. -/
def ending? : Fate → Option Ending
  | answered .. => some .answered
  | timedOut => some .timedOut
  | cancelled => some .cancelled
  | tornDown => some .tornDown
  | withdrawn => none

/-- What a request with this fate comes to: the reply as it was received, a timeout with the time
that it was given, or the fault of its end. Nobody waits for one that was withdrawn. -/
def outcome? (key : CorrelationKey) (request : Pending) : Fate → Option Outcome
  | answered m time => some (.ok ⟨key, m.topic, m.sender, m.payload, time⟩)
  | timedOut => some (.error (.requestTimeout key request.timeout))
  | cancelled => some (.error (.cancelled key))
  | tornDown => some (.error (.channelUnavailable request.replyTopic Correlator.tornDown))
  | withdrawn => none

/-- Every fate that is counted lets somebody learn an outcome. -/
theorem outcome?_isSome {fate : Fate} (h : fate.ending?.isSome) (key : CorrelationKey)
    (request : Pending) : (fate.outcome? key request).isSome := by
  cases fate <;> first | rfl | cases h

end Fate

/-- How many requests have ended in a way. -/
def Tally.settledAs (t : Tally) : Ending → Nat
  | .answered => t.responses
  | .timedOut => t.timeouts
  | .cancelled => t.cancellations
  | .tornDown => t.teardowns

namespace Correlator

/-- Requests have left the table with one fate, and nothing else has happened to any request. -/
structure Settles (fate : Fate) (c d : Correlator) : Prop where
  config : d.config = c.config
  sent : d.sent = c.sent
  /-- Those that still wait are as they were. -/
  pending : d.pending.entries.Sublist c.pending.entries
  /-- Those that have left came to what their fate says. -/
  outcome : ∀ key, d.outcome? key = (c.outcome? key).or
    (if d.pending.contains key then none else (c.pending.get? key).bind (fate.outcome? key))
  /-- Those that have left are counted once. -/
  tally : ∀ ending,
    d.tally.settledAs ending + (if fate.ending? = some ending then d.pending.size else 0) =
      c.tally.settledAs ending + (if fate.ending? = some ending then c.pending.size else 0)

variable {fate : Fate} {b c d : Correlator}

/-- A request that still waits is the request that it was. -/
theorem Settles.get?_of_some (h : Settles fate c d) {key : CorrelationKey} {request : Pending}
    (hk : d.pending.get? key = some request) : c.pending.get? key = some request :=
  Table.get?_of_sublist h.pending hk

/-- A request that does not wait any more does not come back. -/
theorem Settles.get?_eq_none (h : Settles fate c d) {key : CorrelationKey}
    (hk : c.pending.get? key = none) : d.pending.get? key = none := by
  cases hd : d.pending.get? key with
  | none => rfl
  | some request => exact (hk.symm.trans (h.get?_of_some hd)).symm

/-- Nothing has left the table. -/
theorem Settles.of_eq (hconfig : d.config = c.config) (hsent : d.sent = c.sent)
    (hpending : d.pending = c.pending) (hsettled : d.settled = c.settled)
    (htally : ∀ ending, d.tally.settledAs ending = c.tally.settledAs ending) :
    Settles fate c d where
  config := hconfig
  sent := hsent
  pending := hpending ▸ List.Sublist.refl _
  outcome key := by
    have hout : d.outcome? key = c.outcome? key := by rw [outcome?, outcome?, hsettled]
    rw [hout, hpending]
    split
    · exact (Option.or_none).symm
    · next hc =>
      rw [Bool.not_eq_true, Table.contains_eq_false_iff] at hc
      rw [hc, Option.bind_none, Option.or_none]
  tally ending := by rw [htally, hpending]

/-- No request need leave the table. -/
theorem Settles.refl (fate : Fate) (c : Correlator) : Settles fate c c :=
  .of_eq rfl rfl rfl rfl fun _ => rfl

/-- Requests that leave the table with the same fate may do so one after the other. -/
theorem Settles.trans (h : Settles fate b c) (k : Settles fate c d) : Settles fate b d where
  config := k.config.trans h.config
  sent := k.sent.trans h.sent
  pending := k.pending.trans h.pending
  outcome key := by
    rw [k.outcome, h.outcome, Option.or_assoc]
    congr 1
    cases hd : d.pending.get? key with
    | some request =>
      have hdc : d.pending.contains key = true := (Table.contains_eq_true_iff _ _).2 ⟨_, hd⟩
      have hcc : c.pending.contains key = true :=
        (Table.contains_eq_true_iff _ _).2 ⟨_, k.get?_of_some hd⟩
      rw [if_pos hdc, if_pos hcc, if_pos hdc, Option.none_or]
    | none =>
      have hdc : ¬d.pending.contains key = true := by
        rw [Bool.not_eq_true, Table.contains_eq_false_iff, hd]
      rw [if_neg hdc, if_neg hdc]
      cases hc : c.pending.get? key with
      | some request =>
        have hcc : c.pending.contains key = true := (Table.contains_eq_true_iff _ _).2 ⟨_, hc⟩
        rw [if_pos hcc, Option.none_or, h.get?_of_some hc]
      | none =>
        have hcc : ¬c.pending.contains key = true := by
          rw [Bool.not_eq_true, Table.contains_eq_false_iff, hc]
        rw [if_neg hcc, Option.bind_none, Option.or_none]
  tally ending := (k.tally ending).trans (h.tally ending)

/-- One request has left the table. -/
theorem Settles.of_erase {key : CorrelationKey} {request : Pending}
    (hrequest : c.pending.get? key = some request) (hconfig : d.config = c.config)
    (hsent : d.sent = c.sent) (hpending : d.pending = c.pending.erase key)
    (hsettled : d.settled = c.settled ++ ((fate.outcome? key request).map (key, ·)).toList)
    (htally : ∀ ending, d.tally.settledAs ending =
      c.tally.settledAs ending + if fate.ending? = some ending then 1 else 0) :
    Settles fate c d where
  config := hconfig
  sent := hsent
  pending := by
    rw [hpending]
    exact List.filter_sublist
  outcome x := by
    have hget := Table.get?_erase c.pending key x
    rw [← hpending] at hget
    have hlookup : Table.lookup x ((fate.outcome? key request).map (key, ·)).toList =
        if key = x then fate.outcome? key request else none := by
      cases fate.outcome? key request <;> simp [Table.lookup]
    rw [outcome?, hsettled, Table.lookup_append, hlookup]
    congr 1
    by_cases hx : key = x
    · subst hx
      rw [if_pos rfl] at hget
      rw [if_pos rfl, Table.contains, hget, Option.isSome_none,
        if_neg Bool.false_ne_true, hrequest, Option.bind_some]
    · rw [if_neg hx] at hget
      rw [if_neg hx, Table.contains, hget]
      cases c.pending.get? x <;> rfl
  tally ending := by
    have hsize := Table.size_erase hrequest
    rw [htally, hpending]
    split <;> omega

/-- Withdrawing a request. -/
theorem settles_drop (c : Correlator) (key : CorrelationKey) :
    Settles .withdrawn c (c.drop key) := by
  cases h : c.pending.get? key with
  | some request => exact .of_erase h rfl rfl rfl (List.append_nil _).symm fun _ => rfl
  | none =>
    refine .of_eq rfl rfl ?_ rfl fun _ => rfl
    have hkey : key ∉ c.pending.keys := by
      rw [Table.mem_keys_iff, Bool.not_eq_true, Table.contains_eq_false_iff, h]
    have hfilter : c.pending.entries.filter (·.1 ≠ key) = c.pending.entries :=
      List.filter_eq_self.2 fun e he =>
        decide_eq_true fun hek => hkey (hek ▸ List.mem_map_of_mem (f := Prod.fst) he)
    rw [drop]
    dsimp only [Table.erase]
    congr 1

/-- The correlator after a message has answered the request with its key. -/
def answeredBy (c : Correlator) (now : Nat) (m : Message) : Correlator :=
  let c := (c.drop m.correlationId).settle m.correlationId
    (.ok ⟨m.correlationId, m.topic, m.sender, m.payload, now⟩)
  { c with tally := { c.tally with responses := c.tally.responses + 1 } }

/-- A message has no key, or a key that nothing waits for, or it comes on another topic than the
reply has to, or it answers a request. -/
theorem onMessage_cases (c : Correlator) (now : Nat) (m : Message) :
    (m.correlationId = 0 ∧ c.onMessage now m = c) ∨
    (m.correlationId ≠ 0 ∧ c.pending.get? m.correlationId = none ∧
      c.onMessage now m = { c with tally := { c.tally with discarded := c.tally.discarded + 1 } }) ∨
    ∃ request, m.correlationId ≠ 0 ∧ c.pending.get? m.correlationId = some request ∧
      ((m.topic ≠ request.replyTopic ∧ c.onMessage now m = c) ∨
        (m.topic = request.replyTopic ∧ c.onMessage now m = c.answeredBy now m)) := by
  unfold onMessage
  dsimp only
  by_cases hkey : m.correlationId = 0
  · exact Or.inl ⟨hkey, if_pos hkey⟩
  · rw [if_neg hkey]
    refine Or.inr ?_
    cases hp : c.pending.get? m.correlationId with
    | none => exact Or.inl ⟨hkey, rfl, rfl⟩
    | some request =>
      refine Or.inr ⟨request, hkey, rfl, ?_⟩
      dsimp only
      by_cases htopic : request.replyTopic = m.topic
      · exact Or.inr ⟨htopic.symm, if_neg (not_not_intro htopic)⟩
      · exact Or.inl ⟨Ne.symm htopic, if_pos htopic⟩

/-- Taking in a message. -/
theorem settles_onMessage (c : Correlator) (now : Nat) (m : Message) :
    Settles (.answered m now) c (c.onMessage now m) := by
  rcases c.onMessage_cases now m with
    ⟨-, he⟩ | ⟨-, -, he⟩ | ⟨request, -, hp, ⟨-, he⟩ | ⟨-, he⟩⟩ <;> rw [he]
  · exact .refl _ c
  · exact .of_eq rfl rfl rfl rfl fun ending => by cases ending <;> rfl
  · exact .refl _ c
  · exact .of_erase hp rfl rfl rfl rfl fun ending => by cases ending <;> rfl

/-- Calling one request off. -/
theorem settles_cancel (c : Correlator) (key : CorrelationKey) :
    Settles .cancelled c (c.cancel key).2 := by
  unfold cancel
  split
  · exact .refl _ c
  · next hp => exact .of_erase hp rfl rfl rfl rfl fun ending => by cases ending <;> rfl

/-- What calling off one request keeps, calling off the requests of a job keeps. -/
theorem cancelOwnedBy_induct {P : Correlator → Prop} (h : P c)
    (hcancel : ∀ (b : Correlator) (key : CorrelationKey), P b → P (b.cancel key).2) (job : JobId) :
    P (c.cancelOwnedBy job).2 :=
  List.foldlRecOn (motive := fun r : Nat × Correlator => P r.2) (c.keysOwnedBy job) _ h
    fun r hr key _ => hcancel r.2 key hr

/-- Calling off the requests of a job. -/
theorem settles_cancelOwnedBy (c : Correlator) (job : JobId) :
    Settles .cancelled c (c.cancelOwnedBy job).2 :=
  cancelOwnedBy_induct (.refl _ c) (fun b key hb => hb.trans (settles_cancel b key)) job

/-- Tearing the channel down under one request. -/
theorem settles_tearDown {key : CorrelationKey} {request : Pending}
    (h : c.pending.get? key = some request) : Settles .tornDown c (c.tearDown key request) :=
  .of_erase h rfl rfl rfl rfl fun ending => by cases ending <;> rfl

/-- When the first pair of a table is removed, the others are left. -/
theorem entries_erase_head {κ α : Type} [DecidableEq κ] {t : Table κ α} {e : κ × α}
    {rest : List (κ × α)} (h : t.entries = e :: rest) : (t.erase e.1).entries = rest := by
  have hnodup := t.nodup
  rw [h, List.map_cons, List.nodup_cons] at hnodup
  change t.entries.filter (·.1 ≠ e.1) = rest
  rw [h, List.filter_cons_of_neg (by simp), List.filter_eq_self]
  exact fun x hx => decide_eq_true fun hxe =>
    hnodup.1 (hxe ▸ List.mem_map_of_mem (f := Prod.fst) hx)

/-- Tearing the channel down under all requests, one after the other. -/
theorem settles_tearDownAll {entries : List (CorrelationKey × Pending)}
    (h : c.pending.entries = entries) :
    Settles .tornDown c (entries.foldl (fun c e => c.tearDown e.1 e.2) c) ∧
      (entries.foldl (fun c e => c.tearDown e.1 e.2) c).pending.entries = [] := by
  induction entries generalizing c with
  | nil => exact ⟨.refl _ c, h⟩
  | cons e entries ih =>
    have hget : c.pending.get? e.1 = some e.2 := by
      rw [Table.get?_eq_some_iff, h]
      exact List.mem_cons_self
    obtain ⟨hrest, hnone⟩ := ih (c := c.tearDown e.1 e.2) (entries_erase_head h)
    exact ⟨(settles_tearDown hget).trans hrest, hnone⟩

/-- Tearing the channel down. -/
theorem settles_close (c : Correlator) : Settles .tornDown c c.close.2 :=
  (settles_tearDownAll rfl).1

/-- Nothing waits any more once the channel is torn down. -/
theorem pending_close (c : Correlator) : c.close.2.pending.entries = [] :=
  (settles_tearDownAll rfl).2

/-- The deadline of one request. -/
theorem settles_expire (c : Correlator) (key : CorrelationKey) :
    Settles .timedOut c (c.expire key) := by
  unfold expire
  split
  · exact .refl _ c
  · next hp => exact .of_erase hp rfl rfl rfl rfl fun ending => by cases ending <;> rfl

/-- The deadlines of several requests. -/
theorem settles_expireAll (c : Correlator) (fired : List (CorrelationKey × Unit)) :
    Settles .timedOut c (fired.foldl (fun c e => c.expire e.1) c) := by
  induction fired generalizing c with
  | nil => exact .refl _ c
  | cons e fired ih => exact (settles_expire c e.1).trans (ih (c.expire e.1))

/-- Letting the supervisor of the deadlines run. -/
theorem settles_pollDeadlines (c : Correlator) (now : Nat) :
    Settles .timedOut c (c.pollDeadlines now) :=
  (Settles.of_eq rfl rfl rfl rfl fun _ => rfl :
    Settles .timedOut c { c with supervisor := (c.supervisor.poll now).2 }).trans
    (settles_expireAll _ (c.supervisor.poll now).1)

end Correlator

end Flotilla
