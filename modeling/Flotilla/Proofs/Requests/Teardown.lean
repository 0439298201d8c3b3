import Flotilla.Proofs.Channels.Broker
import Flotilla.Proofs.Channels.Link
import Flotilla.Proofs.Requests.Keys
import Mathlib.Data.List.Count
import Mathlib.Logic.Relation

/-!
# When the channel is torn down

A correlator works on a broker or on a link. Sending a request is entering it and handing its
message to the channel, and anything can happen in between (`Line.Step`). When the channel is
closed, the correlator is told so once. At that moment each request that waits is lost, and no
deadline is left (`Correlator.Drained`). Later on nothing is taken any more, so that whatever waits
is about to be withdrawn (`Line.AfterTeardown`): a request that is entered around the teardown is
either lost with the others or refused.
-/

namespace Flotilla

namespace Correlator

variable {b c d : Correlator} {key : CorrelationKey} {request : Pending} {outcome : Outcome}

/-- What waits has no outcome, and no outcome is noted twice. -/
def Once (c : Correlator) : Prop := (c.pending.keys ++ c.settled.map Prod.fst).Nodup

/-- Requests leave the table, and of each of them at most one outcome is noted. -/
structure Notes (c d : Correlator) : Prop where
  settled : c.settled <+: d.settled
  keys : (d.pending.keys ++ d.settled.map Prod.fst).Subperm
    (c.pending.keys ++ c.settled.map Prod.fst)

/-- Where requests and outcomes stay, no outcome is noted. -/
theorem Notes.of_eq (hpending : d.pending = c.pending) (hsettled : d.settled = c.settled) :
    Notes c d where
  settled := hsettled ▸ List.prefix_rfl
  keys := by rw [hpending, hsettled]

private theorem Notes.refl (c : Correlator) : Notes c c := .of_eq rfl rfl

private theorem Notes.trans (h : Notes b c) (k : Notes c d) : Notes b d :=
  ⟨h.settled.trans k.settled, k.keys.trans h.keys⟩

/-- Where requests only leave the table, outcomes are still noted once. -/
theorem Notes.once (h : Notes c d) (hc : c.Once) : d.Once := by
  obtain ⟨keys, hperm, hsub⟩ := h.keys
  exact hperm.nodup_iff.1 (hc.sublist hsub)

/-- One request leaves the table, and what it came to is noted. -/
theorem Notes.of_erase (hrequest : c.pending.get? key = some request)
    (hpending : d.pending = c.pending.erase key)
    (hsettled : d.settled = c.settled ++ [(key, outcome)]) : Notes c d where
  settled := hsettled ▸ List.prefix_append _ _
  keys := by
    have hmoved : (d.pending.keys ++ d.settled.map Prod.fst).Perm
        ((key :: (c.pending.erase key).keys) ++ c.settled.map Prod.fst) := by
      rw [hpending, hsettled, List.map_append, List.map_singleton, ← List.append_assoc]
      exact List.perm_append_singleton _ _
    exact (hmoved.trans ((Table.perm_keys_erase hrequest).append_right _)).subperm

/-- Dropping a request settles none. -/
theorem notes_drop (c : Correlator) (key : CorrelationKey) : Notes c (c.drop key) where
  settled := List.prefix_rfl
  keys := by
    have hsub : (c.drop key).pending.keys.Sublist c.pending.keys :=
      (Table.keys_erase c.pending key).symm ▸ List.filter_sublist
    exact (hsub.append_right _).subperm

/-- A message settles at most the request that waits under its key. -/
theorem notes_onMessage (c : Correlator) (now : Nat) (m : Message) :
    Notes c (c.onMessage now m) := by
  rcases c.onMessage_cases now m with
    ⟨-, he⟩ | ⟨-, -, he⟩ | ⟨request, -, hp, ⟨-, he⟩ | ⟨-, he⟩⟩ <;> rw [he]
  · exact .refl c
  · exact .of_eq rfl rfl
  · exact .refl c
  · exact .of_erase hp rfl rfl

/-- Cancelling settles at most the request that waits under the key. -/
theorem notes_cancel (c : Correlator) (key : CorrelationKey) : Notes c (c.cancel key).2 := by
  unfold cancel
  split
  · exact .refl c
  · next hp => exact .of_erase hp rfl rfl

/-- Cancelling the requests of a job settles only requests that wait. -/
theorem notes_cancelOwnedBy (c : Correlator) (job : JobId) : Notes c (c.cancelOwnedBy job).2 :=
  cancelOwnedBy_induct (.refl c) (fun b key hb => hb.trans (notes_cancel b key)) job

/-- A deadline settles at most the request that waits under its key. -/
theorem notes_expire (c : Correlator) (key : CorrelationKey) : Notes c (c.expire key) := by
  unfold expire
  split
  · exact .refl c
  · next hp => exact .of_erase hp rfl rfl

/-- Letting deadlines go settles only requests that wait. -/
theorem notes_pollDeadlines (c : Correlator) (now : Nat) : Notes c (c.pollDeadlines now) := by
  have hstart : Notes c { c with supervisor := (c.supervisor.poll now).2 } := .of_eq rfl rfl
  exact List.foldlRecOn (c.supervisor.poll now).1 (fun c e => c.expire e.1) hstart
    fun b hb e _ => hb.trans (notes_expire b e.1)

/-- Tearing down settles only requests that wait. -/
theorem notes_close (c : Correlator) : Notes c c.close.2 := by
  suffices h : ∀ entries (c : Correlator), c.pending.entries = entries →
      Notes c (entries.foldl (fun c e => c.tearDown e.1 e.2) c) from h _ c rfl
  intro entries
  induction entries with
  | nil => exact fun c _ => .refl c
  | cons e entries ih =>
    intro c hentries
    have hget : c.pending.get? e.1 = some e.2 := by
      rw [Table.get?_eq_some_iff, hentries]
      exact List.mem_cons_self
    have htorn : Notes c (c.tearDown e.1 e.2) := .of_erase hget rfl rfl
    exact htorn.trans (ih _ (entries_erase_head hentries))

/-- Keys are given out once, so nothing is noted of a request that is entered. -/
theorem Once.entered {handle : Handle} {request : Request} {timeout : Nat} (h : c.Once)
    (hkeyed : c.WellKeyed) (he : c.Entered handle request timeout d) (hsent : c.sent + 1 < 2 ^ 64) :
    d.Once := by
  have hunsettled : handle.key ∉ c.settled.map Prod.fst := by
    rw [← Table.lookup_eq_none_iff, he.key_eq]
    exact (hkeyed.unused c.sent (Nat.le_refl _) hsent).2
  have hfresh : handle.key ∉ c.pending.keys := by
    rw [Table.mem_keys_iff, Bool.not_eq_true, Table.contains_eq_false_iff]
    exact he.fresh
  have hmoved : (d.pending.keys ++ d.settled.map Prod.fst).Perm
      (handle.key :: (c.pending.keys ++ c.settled.map Prod.fst)) := by
    rw [he.pending, he.settled, Table.keys_set, if_neg hfresh, List.append_assoc]
    exact List.perm_middle
  refine hmoved.nodup_iff.2 (List.nodup_cons.2 ⟨?_, h⟩)
  rw [List.mem_append, not_or]
  exact ⟨hfresh, hunsettled⟩

/-- What a request comes to when the channel is torn down. -/
def lost (e : CorrelationKey × Pending) : CorrelationKey × Outcome :=
  (e.1, .error (.channelUnavailable e.2.replyTopic tornDown))

/-- All requests that wait are lost, in their order, and counted; no deadline is left. -/
structure Drained (c d : Correlator) : Prop where
  settled : d.settled = c.settled ++ c.pending.entries.map lost
  tally : d.tally = { c.tally with teardowns := c.tally.teardowns + c.pending.size }
  pending : d.pending.size = 0
  queue : d.supervisor.queue.size = 0
  next : d.supervisor.queue.next? = none

/-- Tearing down a row of requests settles each of them as lost, and counts them. -/
theorem settled_tearDownAll (entries : List (CorrelationKey × Pending)) (c : Correlator) :
    (entries.foldl (fun c e => c.tearDown e.1 e.2) c).settled = c.settled ++ entries.map lost ∧
      (entries.foldl (fun c e => c.tearDown e.1 e.2) c).tally =
        { c.tally with teardowns := c.tally.teardowns + entries.length } := by
  induction entries generalizing c with
  | nil => exact ⟨(List.append_nil _).symm, rfl⟩
  | cons e entries ih =>
    obtain ⟨hsettled, htally⟩ := ih (c.tearDown e.1 e.2)
    rw [List.foldl_cons, hsettled, htally, List.map_cons, List.length_cons, Nat.add_comm _ 1,
      ← Nat.add_assoc, List.append_cons]
    exact ⟨rfl, rfl⟩

/-- Tearing down settles all that waits, and leaves nothing. -/
theorem drained_close (h : c.Aligned) : Drained c c.close.2 := by
  obtain ⟨hsettled, htally⟩ := settled_tearDownAll c.pending.entries c
  have hnone (key : CorrelationKey) : c.close.2.supervisor.queue.deadline? key = none := by
    rw [h.close.deadline?_eq_none_iff, Table.get?, pending_close]
    rfl
  have hnext := h.close.queue.next?_eq_none_iff_forall.2 hnone
  have hempty := h.close.queue.next?_eq_none_iff.1 hnext
  refine ⟨hsettled, htally, congrArg List.length (pending_close c), ?_, hnext⟩
  exact congrArg List.length (List.isEmpty_iff.1 hempty)

end Correlator

/-- A channel of either kind. -/
inductive Channel (α : Type) where
  | broker (b : Broker α)
  | link (l : Link α)

namespace Channel

variable {α : Type} {channel channel' : Channel α}

/-- Take a message. -/
def publish : Channel α → Message → Except Fault (Channel α)
  | broker b, m => (b.publish m).map broker
  | link l, m => (l.publish m).map link

def isClosed : Channel α → Bool
  | broker b => b.closed
  | link l => l.isClosed

/-- The reason for which a closed channel takes nothing. -/
def closedReason : Channel α → String
  | broker _ => "broker closed"
  | link _ => "link closed"

/-- The channel does something, or something is asked of it. -/
inductive Step : Channel α → Channel α → Prop
  | broker {b b' : Broker α} {x : Broker.Happening α} (h : Broker.Step b x b') :
    Step (.broker b) (.broker b')
  | link {l l' : Link α} {x : Link.Happening α} (h : Link.Step l x l') : Step (.link l) (.link l')

/-- A channel that is closed refuses a message with its reason. -/
theorem publish_of_closed (h : channel.isClosed = true) (m : Message) :
    channel.publish m = .error (.channelUnavailable m.topic channel.closedReason) := by
  cases channel with
  | broker b => rw [publish, Broker.refuses_of_closed h]; rfl
  | link l => rw [publish, Link.refuses_of_closed h]; rfl

/-- A closed channel stays closed. -/
theorem Step.isClosed (h : Step channel channel') (hclosed : channel.isClosed = true) :
    channel'.isClosed = true := by
  cases h with
  | broker h => exact h.closed_of_closed hclosed
  | link h => exact h.closed_of_closed hclosed

end Channel

/-- A correlator at work on a channel. -/
structure Line (α : Type) where
  now : Nat
  correlator : Correlator
  channel : Channel α
  /-- The requests whose messages the channel has neither taken nor refused so far. -/
  inHand : List (CorrelationKey × Request)
  /-- Whether the correlator has been told that the channel is closed; it is told once. -/
  tornDown : Bool

namespace Line

open Ledger (nthKey nthKey_injective)

variable {α : Type}

/-- A correlator that has just been made, on a channel that may have been in use. -/
def start (config : Config) (now : Nat) (channel : Channel α) : Line α :=
  ⟨now, .new config now, channel, [], false⟩

/-- Enter a request. -/
def enter (l : Line α) (request : Request) (timeout : Nat) : Line α :=
  match l.correlator.enter l.now request timeout with
  | (.ok handle, correlator) =>
    { l with correlator, inHand := l.inHand ++ [(handle.key, request)] }
  | (.error _, correlator) => { l with correlator }

/-- The channel has taken the message of a request. -/
def take (l : Line α) (key : CorrelationKey) (channel : Channel α) : Line α :=
  { l with channel, inHand := l.inHand.filter (·.1 ≠ key) }

/-- The channel has refused the message of a request, which is withdrawn. -/
def refuse (l : Line α) (key : CorrelationKey) : Line α :=
  { l with correlator := l.correlator.drop key, inHand := l.inHand.filter (·.1 ≠ key) }

/-- The correlator is told that the channel is closed. -/
def tearDown (l : Line α) : Line α :=
  { l with correlator := l.correlator.close.2, tornDown := true }

/-- What can happen on a line. -/
inductive Step : Line α → Line α → Prop
  | enter (l : Line α) (request : Request) (timeout : Nat) : Step l (l.enter request timeout)
  | take {l : Line α} {key : CorrelationKey} {request : Request} {channel : Channel α}
    (hmem : (key, request) ∈ l.inHand)
    (h : l.channel.publish (l.correlator.message key request l.now) = .ok channel) :
    Step l (l.take key channel)
  | refuse {l : Line α} {key : CorrelationKey} {request : Request} {fault : Fault}
    (hmem : (key, request) ∈ l.inHand)
    (h : l.channel.publish (l.correlator.message key request l.now) = .error fault) :
    Step l (l.refuse key)
  | message (l : Line α) (m : Message) :
    Step l { l with correlator := l.correlator.onMessage l.now m }
  | cancel (l : Line α) (key : CorrelationKey) :
    Step l { l with correlator := (l.correlator.cancel key).2 }
  | cancelOwnedBy (l : Line α) (job : JobId) :
    Step l { l with correlator := (l.correlator.cancelOwnedBy job).2 }
  | fire (l : Line α) : Step l { l with correlator := l.correlator.pollDeadlines l.now }
  | pass (l : Line α) (span : Nat) : Step l { l with now := l.now + span }
  | channel {l : Line α} {channel : Channel α} (h : l.channel.Step channel) :
    Step l { l with channel }
  | tearDown {l : Line α} (hclosed : l.channel.isClosed = true) (h : l.tornDown = false) :
    Step l l.tearDown

/-- What comes to be after some steps. -/
abbrev Reaches : Line α → Line α → Prop := Relation.ReflTransGen Step

variable {l m : Line α}

/-- Requests leave the table of a line, and none comes in. -/
structure Settles (l m : Line α) : Prop where
  settles : ∃ fate, Correlator.Settles fate l.correlator m.correlator
  notes : Correlator.Notes l.correlator m.correlator
  aligned : l.correlator.Aligned → m.correlator.Aligned
  inHand : m.inHand ⊆ l.inHand
  closed : l.channel.isClosed = true → m.channel.isClosed = true
  /-- Once the channel is closed, nothing that waits gets out of hand. -/
  kept : l.channel.isClosed = true →
    ∀ e ∈ l.inHand, m.correlator.pending.contains e.1 = true → e ∈ m.inHand

/-- Only the correlator has done something. -/
theorem settles_of_correlator {fate : Fate} {d : Correlator}
    (hs : Correlator.Settles fate l.correlator d) (hn : Correlator.Notes l.correlator d)
    (ha : l.correlator.Aligned → d.Aligned) : Settles l { l with correlator := d } :=
  ⟨⟨fate, hs⟩, hn, ha, List.Subset.refl _, id, fun _ _ he _ => he⟩

/-- All that a step can be: a request is entered, or requests leave the table. -/
theorem Step.enter_or_settles (h : Step l m) :
    (∃ request timeout, m = l.enter request timeout) ∨ Settles l m := by
  have hstill : ∃ fate, Correlator.Settles fate l.correlator l.correlator :=
    ⟨.withdrawn, .refl _ _⟩
  cases h with
  | enter request timeout => exact Or.inl ⟨request, timeout, rfl⟩
  | take hmem hpublish =>
    refine Or.inr ⟨hstill, .refl _, id, List.filter_sublist.subset, fun hclosed => ?_,
      fun hclosed => ?_⟩
    · cases (Channel.publish_of_closed hclosed _).symm.trans hpublish
    · cases (Channel.publish_of_closed hclosed _).symm.trans hpublish
  | @refuse key request fault hmem hpublish =>
    refine Or.inr ⟨⟨_, Correlator.settles_drop _ key⟩, Correlator.notes_drop _ key, (·.drop key),
      List.filter_sublist.subset, id, fun _ e he hwaits => ?_⟩
    refine List.mem_filter.2 ⟨he, decide_eq_true fun hkey => ?_⟩
    have hgone := Table.get?_erase l.correlator.pending key e.1
    rw [if_pos hkey.symm] at hgone
    exact Bool.false_ne_true (((Table.contains_eq_false_iff _ _).2 hgone).symm.trans hwaits)
  | message x =>
    exact Or.inr (settles_of_correlator (Correlator.settles_onMessage _ _ x)
      (Correlator.notes_onMessage _ _ x) (·.onMessage _ x))
  | cancel key =>
    exact Or.inr (settles_of_correlator (Correlator.settles_cancel _ key)
      (Correlator.notes_cancel _ key) (·.cancel key))
  | cancelOwnedBy job =>
    exact Or.inr (settles_of_correlator (Correlator.settles_cancelOwnedBy _ job)
      (Correlator.notes_cancelOwnedBy _ job) (·.cancelOwnedBy job))
  | fire =>
    exact Or.inr (settles_of_correlator (Correlator.settles_pollDeadlines _ _)
      (Correlator.notes_pollDeadlines _ _) (·.pollDeadlines _))
  | pass span => exact Or.inr ⟨hstill, .refl _, id, List.Subset.refl _, id, fun _ _ he _ => he⟩
  | channel hstep =>
    exact Or.inr ⟨hstill, .refl _, id, List.Subset.refl _, hstep.isClosed, fun _ _ he _ => he⟩
  | tearDown hclosed htold =>
    exact Or.inr ⟨⟨_, Correlator.settles_close _⟩, Correlator.notes_close _, (·.close),
      List.Subset.refl _, id, fun _ _ he _ => he⟩

/-- What is in hand has been given a key, and outcomes are noted once. -/
structure Orderly (l : Line α) : Prop where
  wellKeyed : l.correlator.WellKeyed
  once : l.correlator.Once
  given : ∀ e ∈ l.inHand, ∃ n < l.correlator.sent, e.1 = nthKey n

/-- A new line is orderly. -/
theorem orderly_start (config : Config) (now : Nat) (channel : Channel α) :
    (start config now channel).Orderly where
  wellKeyed := Correlator.wellKeyed_new config now
  once := List.nodup_nil
  given := nofun

private theorem sent_enter (l : Line α) (request : Request) (timeout : Nat) :
    (l.enter request timeout).correlator.sent = l.correlator.sent + 1 := by
  rw [enter]
  rcases l.correlator.enter_cases l.now request timeout with ⟨fault, he⟩ | ⟨handle, d, he, hd⟩
  · rw [he]
  · rw [he]
    exact hd.sent

/-- As long as keys last, a request is entered under the next one. -/
theorem Orderly.enter_eq (h : l.Orderly) (hsent : l.correlator.sent + 1 < 2 ^ 64)
    (request : Request) (timeout : Nat) :
    ∃ handle d, l.correlator.enter l.now request timeout = (.ok handle, d) ∧
      l.correlator.Entered handle request timeout d ∧ d.WellKeyed ∧
      l.enter request timeout =
        { l with correlator := d, inHand := l.inHand ++ [(handle.key, request)] } := by
  obtain ⟨handle, d, henter, hd, hkeyed, -⟩ := h.wellKeyed.enter hsent l.now request timeout
  refine ⟨handle, d, henter, hd, hkeyed, ?_⟩
  rw [enter, henter]

/-- Keys are given out in order. -/
theorem Step.sent_le (h : Step l m) : l.correlator.sent ≤ m.correlator.sent := by
  rcases h.enter_or_settles with ⟨request, timeout, rfl⟩ | hs
  · rw [sent_enter]
    exact Nat.le_succ _
  · obtain ⟨fate, hsettles⟩ := hs.settles
    exact Nat.le_of_eq hsettles.sent.symm

/-- A step keeps a line orderly, as long as keys last. -/
theorem Orderly.step (h : l.Orderly) (hstep : Step l m) (hsent : m.correlator.sent < 2 ^ 64) :
    m.Orderly := by
  rcases hstep.enter_or_settles with ⟨request, timeout, rfl⟩ | hs
  · rw [sent_enter] at hsent
    obtain ⟨handle, d, -, hd, hkeyed, heq⟩ := h.enter_eq hsent request timeout
    rw [heq]
    refine ⟨hkeyed, h.once.entered h.wellKeyed hd hsent, fun e he => ?_⟩
    dsimp only
    rw [hd.sent]
    rcases List.mem_append.1 he with hold | hnew
    · obtain ⟨n, hn, hkey⟩ := h.given e hold
      exact ⟨n, Nat.lt_succ_of_lt hn, hkey⟩
    · cases List.mem_singleton.1 hnew
      exact ⟨_, Nat.lt_succ_self _, hd.key_eq⟩
  · obtain ⟨fate, hsettles⟩ := hs.settles
    refine ⟨h.wellKeyed.settles hsettles (hs.aligned h.wellKeyed.aligned), hs.notes.once h.once,
      fun e he => ?_⟩
    rw [hsettles.sent]
    exact h.given e (hs.inHand he)

private theorem Reaches.sent_le (h : Reaches l m) : l.correlator.sent ≤ m.correlator.sent := by
  induction h with
  | refl => exact Nat.le_refl _
  | tail _ hstep ih => exact Nat.le_trans ih hstep.sent_le

/-- Any row of steps keeps a line orderly, as long as keys last. -/
theorem Orderly.reaches (h : l.Orderly) (hreaches : Reaches l m)
    (hsent : m.correlator.sent < 2 ^ 64) : m.Orderly := by
  induction hreaches with
  | refl => exact h
  | tail _ hstep ih => exact (ih (Nat.lt_of_le_of_lt hstep.sent_le hsent)).step hstep hsent

/-- The line was torn down: nothing is taken any more, the outcomes of the teardown stand, and
whatever waits was entered afterwards and is still in hand. -/
structure ClosedSince (l m : Line α) : Prop where
  orderly : m.Orderly
  closed : m.channel.isClosed = true
  sent : l.correlator.sent ≤ m.correlator.sent
  settled : l.tearDown.correlator.settled <+: m.correlator.settled
  underway : ∀ key, m.correlator.pending.contains key = true → key ∈ m.inHand.map Prod.fst ∧
    ∃ n, l.correlator.sent ≤ n ∧ n < m.correlator.sent ∧ key = nthKey n

/-- What is known of a line since it was closed stays true. -/
theorem ClosedSince.step {m' : Line α} (h : ClosedSince l m) (hstep : Step m m')
    (hsent : m'.correlator.sent < 2 ^ 64) : ClosedSince l m' := by
  have horderly := h.orderly.step hstep hsent
  rcases hstep.enter_or_settles with ⟨request, timeout, rfl⟩ | hs
  · rw [sent_enter] at hsent
    obtain ⟨handle, d, -, hd, -, heq⟩ := h.orderly.enter_eq hsent request timeout
    rw [heq] at horderly ⊢
    refine ⟨horderly, h.closed, ?_, ?_, fun key hkey => ?_⟩
    · exact hd.sent ▸ Nat.le_succ_of_le h.sent
    · exact hd.settled ▸ h.settled
    · dsimp only at hkey ⊢
      rw [hd.sent, List.map_append, List.mem_append]
      by_cases hself : handle.key = key
      · subst hself
        exact ⟨Or.inr (List.mem_singleton_self _), _, h.sent, Nat.lt_succ_self _, hd.key_eq⟩
      · rw [Table.contains, hd.get?_pending_ne hself] at hkey
        obtain ⟨hhand, n, hle, hlt, hn⟩ := h.underway key hkey
        exact ⟨Or.inl hhand, n, hle, Nat.lt_succ_of_lt hlt, hn⟩
  · obtain ⟨fate, hsettles⟩ := hs.settles
    refine ⟨horderly, hs.closed h.closed, hsettles.sent ▸ h.sent, h.settled.trans hs.notes.settled,
      fun key hkey => ?_⟩
    obtain ⟨request, hrequest⟩ := (Table.contains_eq_true_iff _ _).1 hkey
    have hwaited := (Table.contains_eq_true_iff _ _).2 ⟨request, hsettles.get?_of_some hrequest⟩
    obtain ⟨hhand, hgiven⟩ := h.underway key hwaited
    obtain ⟨e, he, rfl⟩ := List.mem_map.1 hhand
    rw [hsettles.sent]
    exact ⟨List.mem_map_of_mem (hs.kept h.closed e he hkey), hgiven⟩

/-- From the teardown of an orderly line on, it is known to be closed. -/
theorem Orderly.closedSince (h : l.Orderly) (hclosed : l.channel.isClosed = true)
    (hlater : Reaches l.tearDown m) (hsent : m.correlator.sent < 2 ^ 64) : ClosedSince l m := by
  induction hlater with
  | refl =>
    have hsettles := Correlator.settles_close l.correlator
    refine ⟨⟨h.wellKeyed.settles hsettles h.wellKeyed.aligned.close,
      (Correlator.notes_close _).once h.once, ?_⟩, hclosed, Nat.le_of_eq hsettles.sent.symm,
      List.prefix_rfl, fun key hkey => ?_⟩
    · exact fun e he => hsettles.sent ▸ h.given e he
    · change l.correlator.close.2.pending.contains key = true at hkey
      rw [Table.contains, Table.get?, Correlator.pending_close] at hkey
      cases hkey
  | tail _ hstep ih => exact (ih (Nat.lt_of_le_of_lt hstep.sent_le hsent)).step hstep hsent

/-- What is so from the teardown of the line `l` on. -/
structure AfterTeardown (l m : Line α) : Prop where
  /-- The requests that waited have been lost, once, -/
  settledOnce : ∀ key request, l.correlator.pending.get? key = some request →
    m.correlator.outcome? key =
        some (.error (.channelUnavailable request.replyTopic Correlator.tornDown)) ∧
      (m.correlator.settled.map Prod.fst).count key = 1
  /-- and none of them can time out. -/
  undue : ∀ key request, l.correlator.pending.get? key = some request →
    m.correlator.supervisor.queue.deadline? key = none
  /-- No message is taken. -/
  refuses : ∀ message, m.channel.publish message =
    .error (.channelUnavailable message.topic m.channel.closedReason)
  /-- What waits was entered afterwards, and its message has not been refused yet. -/
  underway : ∀ key, m.correlator.pending.contains key = true →
    key ∈ m.inHand.map Prod.fst ∧ key ∉ l.inHand.map Prod.fst
  /-- So nothing waits between one operation and the next. -/
  idle : m.inHand ⊆ l.inHand → m.correlator.pending.size = 0
  /-- Sending a request fails, and leaves nothing that waits. -/
  send : ∀ request timeout, m.correlator.sent + 1 < 2 ^ 64 →
    ∃ d, m.correlator.send m.now m.channel.publish request timeout =
        (.error (.channelUnavailable
          (m.correlator.config.commandTopic request.target request.command)
          m.channel.closedReason), d) ∧
      d.pending = m.correlator.pending

/-- No request that waited at the teardown waits again. -/
theorem ClosedSince.notMem_inHand (h : ClosedSince l m) (hl : l.Orderly)
    (hsent : m.correlator.sent < 2 ^ 64)
    {key : CorrelationKey} (hkey : m.correlator.pending.contains key = true) :
    key ∉ l.inHand.map Prod.fst := by
  intro hhand
  obtain ⟨e, he, rfl⟩ := List.mem_map.1 hhand
  obtain ⟨-, n, hle, hlt, hn⟩ := h.underway e.1 hkey
  obtain ⟨k, hk, hkn⟩ := hl.given e he
  have hkm : k < m.correlator.sent := Nat.lt_of_lt_of_le hk h.sent
  have heq := nthKey_injective (Nat.lt_of_le_of_lt hkm hsent) (Nat.lt_of_le_of_lt hlt hsent)
    (hkn.symm.trans hn)
  exact Nat.not_le.2 hk (heq ▸ hle)

/-- What was lost at the teardown stays lost. -/
theorem ClosedSince.mem_settled (h : ClosedSince l m) (hl : l.Orderly) {key : CorrelationKey}
    {request : Pending} (hkey : l.correlator.pending.get? key = some request) :
    Correlator.lost (key, request) ∈ m.correlator.settled := by
  refine h.settled.subset ?_
  change _ ∈ l.correlator.close.2.settled
  rw [(Correlator.drained_close hl.wellKeyed.aligned).settled]
  exact List.mem_append_right _ (List.mem_map_of_mem ((Table.get?_eq_some_iff _ _ _).1 hkey))

/-- Sending is refused, and the request is withdrawn. -/
theorem Orderly.send_of_closed (h : m.Orderly) (hclosed : m.channel.isClosed = true)
    (hsent : m.correlator.sent + 1 < 2 ^ 64) (request : Request) (timeout : Nat) :
    ∃ d, m.correlator.send m.now m.channel.publish request timeout =
        (.error (.channelUnavailable
          (m.correlator.config.commandTopic request.target request.command)
          m.channel.closedReason), d) ∧
      d.pending = m.correlator.pending := by
  obtain ⟨handle, d, henter, hd, -, -⟩ := h.enter_eq hsent request timeout
  refine ⟨d.drop handle.key, ?_, ?_⟩
  · rw [Correlator.send_eq, henter]
    dsimp only
    rw [Channel.publish_of_closed hclosed, ← hd.config]
    rfl
  · change d.pending.erase handle.key = m.correlator.pending
    rw [hd.pending]
    exact Table.erase_set_of_fresh hd.fresh _

/-- What is known of a line since it was closed is what holds after the teardown. -/
theorem ClosedSince.afterTeardown (h : ClosedSince l m) (hl : l.Orderly)
    (hsent : m.correlator.sent < 2 ^ 64) :
    AfterTeardown l m := by
  have hnodup : (m.correlator.settled.map Prod.fst).Nodup := h.orderly.once.of_append_right
  have hlost (key : CorrelationKey) (request : Pending)
      (hkey : l.correlator.pending.get? key = some request) : m.correlator.outcome? key =
        some (.error (.channelUnavailable request.replyTopic Correlator.tornDown)) :=
    (Table.lookup_eq_some_iff hnodup _ _).2 (h.mem_settled hl hkey)
  refine ⟨fun key request hkey => ⟨hlost key request hkey, ?_⟩, fun key request hkey => ?_,
    Channel.publish_of_closed h.closed,
    fun key hkey => ⟨(h.underway key hkey).1, h.notMem_inHand hl hsent hkey⟩, fun hhand => ?_,
    fun request timeout hlast => h.orderly.send_of_closed h.closed hlast request timeout⟩
  · exact List.count_eq_one_of_mem hnodup (List.mem_map_of_mem (h.mem_settled hl hkey))
  · rw [h.orderly.wellKeyed.aligned.deadline?_eq_none_iff]
    refine Option.eq_none_iff_forall_ne_some.2 fun waiting hwaits => ?_
    cases (h.orderly.wellKeyed.unsettled key waiting hwaits).symm.trans (hlost key request hkey)
  · refine List.length_eq_zero_iff.2 (List.eq_nil_iff_forall_not_mem.2 fun e he => ?_)
    have hkey : m.correlator.pending.contains e.1 = true :=
      (Table.contains_eq_true_iff _ _).2 ⟨e.2, (Table.get?_eq_some_iff _ _ _).2 he⟩
    exact h.notMem_inHand hl hsent hkey (List.map_subset _ hhand (h.underway e.1 hkey).1)

/-- Deadlines are those of what waits, even when keys come round again. -/
theorem Reaches.aligned (h : Reaches l m) (hl : l.correlator.Aligned) : m.correlator.Aligned := by
  induction h with
  | refl => exact hl
  | @tail m m' _ hstep ih =>
    rcases hstep.enter_or_settles with ⟨request, timeout, rfl⟩ | hs
    · rw [enter]
      rcases m.correlator.enter_cases m.now request timeout with ⟨fault, he⟩ | ⟨handle, d, he, hd⟩
      · rw [he]
        exact ih.congr rfl rfl
      · rw [he]
        exact ih.entered hd
    · exact hs.aligned ih

/-- When the channel is closed and the correlator is told so, every request that waits is lost,
once, and counted, and no deadline is left. From then on, whatever happens, every send fails for
want of the channel, and a request waits only while it is being sent, as long as keys last. -/
theorem requests_fail_after_teardown {config : Config} {now : Nat} {channel : Channel α}
    (hrun : Reaches (start config now channel) l) (hclosed : l.channel.isClosed = true)
    (hlater : Reaches l.tearDown m) :
    Correlator.Drained l.correlator l.tearDown.correlator ∧
      (m.correlator.sent < 2 ^ 64 → AfterTeardown l m) := by
  refine ⟨Correlator.drained_close (hrun.aligned (Correlator.aligned_new config now)),
    fun hsent => ?_⟩
  have hle : l.correlator.sent ≤ m.correlator.sent :=
    (Correlator.settles_close l.correlator).sent ▸ hlater.sent_le
  have hl : l.Orderly :=
    (orderly_start config now channel).reaches hrun (Nat.lt_of_le_of_lt hle hsent)
  exact (hl.closedSince hclosed hlater hsent).afterTeardown hl hsent

def statusOf (target : String) : Request := ⟨target, "status", [], none⟩

/-- The message of one request has been taken; that of a second one is in hand when the channel is
closed. -/
def overtaken : Line String :=
  let l := (start .standard 0 (.broker .new)).enter (statusOf "edge-1") (Nanos.ofMillis 50)
  let b : Broker String :=
    { Broker.new with inbox := [l.correlator.message 1 (statusOf "edge-1") 0] }
  let l := (l.take 1 (.broker b)).enter (statusOf "edge-2") (Nanos.ofMillis 50)
  { l with channel := .broker b.close }

/-- Another request is entered after the teardown; both messages are refused, and the time of the
first deadlines comes. -/
def aftermath : Line String :=
  let l := ((overtaken.tearDown.enter (statusOf "edge-3") (Nanos.ofMillis 50)).refuse 2).refuse 3
  let l := { l with now := Nanos.ofMillis 50 }
  { l with correlator := l.correlator.pollDeadlines l.now }

private theorem reaches_overtaken : Reaches (start .standard 0 (.broker .new)) overtaken :=
  .tail (.tail (.tail (.tail .refl (.enter _ (statusOf "edge-1") (Nanos.ofMillis 50)))
    (.take (List.mem_singleton_self _) rfl)) (.enter _ (statusOf "edge-2") (Nanos.ofMillis 50)))
    (.channel (.broker (.close _)))

private theorem reaches_aftermath : Reaches overtaken.tearDown aftermath :=
  .tail (.tail (.tail (.tail (.single (.enter _ (statusOf "edge-3") (Nanos.ofMillis 50)))
    (.refuse List.mem_cons_self rfl)) (.refuse List.mem_cons_self rfl))
    (.pass _ (Nanos.ofMillis 50))) (.fire _)

/-- Two requests are lost, and the third one does not wait. -/
theorem requests_fail_after_teardown_overtaken :
    overtaken.tearDown.correlator.tally.teardowns = 2 ∧
      (∀ key ∈ [1, 2], (aftermath.correlator.settled.map Prod.fst).count key = 1) ∧
      aftermath.correlator.outcome? 2 =
        some (.error (.channelUnavailable "fleet/edge-2/reply" Correlator.tornDown)) ∧
      aftermath.correlator.pending.size = 0 := by
  obtain ⟨hdrained, hlater⟩ := requests_fail_after_teardown reaches_overtaken rfl reaches_aftermath
  have hafter := hlater (by decide)
  have hfirst : overtaken.correlator.pending.get? 1 =
      some (Correlator.entryFor .standard (statusOf "edge-1") (Nanos.ofMillis 50)) := rfl
  have hsecond : overtaken.correlator.pending.get? 2 =
      some (Correlator.entryFor .standard (statusOf "edge-2") (Nanos.ofMillis 50)) := rfl
  refine ⟨congrArg Tally.teardowns hdrained.tally, ?_, (hafter.settledOnce 2 _ hsecond).1,
    hafter.idle ?_⟩
  · intro key hkey
    rcases List.mem_pair.1 hkey with rfl | rfl
    · exact (hafter.settledOnce 1 _ hfirst).2
    · exact (hafter.settledOnce 2 _ hsecond).2
  · have hnone : aftermath.inHand = [] := rfl
    rw [hnone]
    exact List.nil_subset _

end Line

end Flotilla
