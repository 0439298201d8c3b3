import Flotilla.Proofs.Requests.Alignment
import Mathlib.Algebra.Group.Nat.Defs
import Mathlib.Data.List.Count
import Mathlib.Data.List.Nodup

/-!
# The ledger of a correlator

A ledger writes down, beside a correlator that runs, which requests it has registered, what the
channel said about their messages, and in which way each of them has left the table. The moves are
those of the correlator in any order; entering a request and the verdict of the channel are two
moves, so anything can happen while a message is being published.

The registered keys are always split between the table and the fates (`Ledger.Sound.classes`), and
every move keeps the table, the deadlines, the counters and the outcomes in step with that split.
-/

namespace Flotilla

/-- A request with the time that it was given. -/
structure Sent where
  request : Request
  timeout : Nat
  deriving DecidableEq, Repr

/-- A correlator with the books that are kept on it. -/
structure Ledger where
  now : Nat
  correlator : Correlator
  /-- The registered requests, the first one first. -/
  registered : List (CorrelationKey × Sent)
  /-- Whether the channel took the message of a request. -/
  verdicts : List (CorrelationKey × Bool)
  /-- How requests have left the table. -/
  fates : List (CorrelationKey × Fate)
  deriving Repr

namespace Ledger

/-- What can happen to a correlator. -/
inductive Move where
  /-- A request is sent; its message goes to the channel. -/
  | enter (request : Request) (timeout : Nat)
  /-- The channel has taken or refused the message of a request. -/
  | verdict (key : CorrelationKey) (taken : Bool)
  /-- A message comes in. -/
  | message (m : Message)
  | cancel (key : CorrelationKey)
  | cancelOwnedBy (job : JobId)
  | close
  /-- The supervisor of the deadlines runs. -/
  | fire
  /-- Time passes. -/
  | pass (span : Nat)
  deriving Repr

/-- Whether a move sends a request. -/
def Move.isEnter : Move → Bool
  | enter .. => true
  | _ => false

/-- The books on a correlator that has just been made. -/
def start (config : Config) (now : Nat) : Ledger := ⟨now, .new config now, [], [], []⟩

/-- The pending keys that another state of the correlator does not have any more. -/
def leavers (c d : Correlator) : List CorrelationKey :=
  c.pending.keys.filter fun key => !d.pending.contains key

/-- The correlator moves on, and the fates of what has left its table are noted. -/
def leave (l : Ledger) (fate : Fate) (d : Correlator) : Ledger :=
  { l with correlator := d, fates := l.fates ++ (leavers l.correlator d).map (·, fate) }

/-- Whether the channel can pass a verdict on a key: once, after the request was registered. -/
def awaitsVerdict (l : Ledger) (key : CorrelationKey) : Bool :=
  (Table.lookup key l.registered).isSome && (Table.lookup key l.verdicts).isNone

def step (l : Ledger) : Move → Ledger
  | .enter request timeout =>
    match l.correlator.enter l.now request timeout with
    | (.ok handle, d) =>
      { l with
        correlator := d
        registered := l.registered ++ [(handle.key, ⟨request, timeout⟩)] }
    | (.error _, d) => { l with correlator := d }
  | .verdict key taken =>
    if l.awaitsVerdict key then
      let l := { l with verdicts := l.verdicts ++ [(key, taken)] }
      if taken then l else l.leave .withdrawn (l.correlator.drop key)
    else l
  | .message m => l.leave (.answered m l.now) (l.correlator.onMessage l.now m)
  | .cancel key => l.leave .cancelled (l.correlator.cancel key).2
  | .cancelOwnedBy job => l.leave .cancelled (l.correlator.cancelOwnedBy job).2
  | .close => l.leave .tornDown l.correlator.close.2
  | .fire => l.leave .timedOut (l.correlator.pollDeadlines l.now)
  | .pass span => { l with now := l.now + span }

def run (config : Config) (now : Nat) (moves : List Move) : Ledger :=
  moves.foldl step (start config now)

/-- The key of the request that is sent after `n` others. -/
def nthKey (n : Nat) : CorrelationKey := UInt64.ofNat (n + 1)

/-- What the books say a key has come to. -/
def notedOutcome? (l : Ledger) (key : CorrelationKey) : Option Outcome :=
  (Table.lookup key l.fates).bind fun fate =>
    (Table.lookup key l.registered).bind fun sent =>
      fate.outcome? key (Correlator.entryFor l.correlator.config sent.request sent.timeout)

/-- A fate can be that of this request. -/
def Fits (config : Config) (verdicts : List (CorrelationKey × Bool)) (key : CorrelationKey)
    (sent : Sent) : Fate → Prop
  | .answered m _ => m.correlationId = key ∧ m.topic = config.replyTopic sent.request.target
  | .withdrawn => (key, false) ∈ verdicts
  | _ => True

/-- The books agree with the correlator. -/
structure Sound (l : Ledger) : Prop where
  aligned : l.correlator.Aligned
  registered : l.registered.map Prod.fst = (List.range l.correlator.sent).map nthKey
  /-- Each registered key waits or has one fate. -/
  classes : (l.correlator.pending.keys ++ l.fates.map Prod.fst).Perm (l.registered.map Prod.fst)
  /-- What waits is what was sent. -/
  waiting : ∀ key request, l.correlator.pending.get? key = some request →
    ∃ sent, Table.lookup key l.registered = some sent ∧
      request = Correlator.entryFor l.correlator.config sent.request sent.timeout
  outcome : ∀ key, l.correlator.outcome? key = l.notedOutcome? key
  tally : ∀ ending, l.correlator.tally.settledAs ending =
    l.fates.countP fun e => e.2.ending? = some ending
  fits : ∀ key fate, (key, fate) ∈ l.fates → ∃ sent, Table.lookup key l.registered = some sent ∧
    Fits l.correlator.config l.verdicts key sent fate
  judged : ∀ key taken, (key, taken) ∈ l.verdicts → key ∈ l.registered.map Prod.fst
  judgedOnce : (l.verdicts.map Prod.fst).Nodup

variable {l : Ledger}

/-- As long as keys last, no key is given out twice. -/
theorem nthKey_injective {m n : Nat} (hm : m + 1 < 2 ^ 64) (hn : n + 1 < 2 ^ 64)
    (h : nthKey m = nthKey n) : m = n := by
  have hval := congrArg UInt64.toNat h
  rw [nthKey, nthKey, UInt64.toNat_ofNat_of_lt' hm, UInt64.toNat_ofNat_of_lt' hn] at hval
  omega

/-- As long as keys last, no key is zero. -/
theorem nthKey_ne_zero {n : Nat} (hn : n + 1 < 2 ^ 64) : nthKey n ≠ 0 := by
  intro h
  have hval := congrArg UInt64.toNat h
  rw [nthKey, UInt64.toNat_ofNat_of_lt' hn, UInt64.toNat_zero] at hval
  omega

private theorem nodup_nthKeys {n : Nat} (hn : n < 2 ^ 64) : ((List.range n).map nthKey).Nodup := by
  refine List.Nodup.map_on ?_ List.nodup_range
  intro a ha b hb hab
  rw [List.mem_range] at ha hb
  exact nthKey_injective (by omega) (by omega) hab

private theorem nthKey_notMem {n : Nat} (hn : n + 1 < 2 ^ 64) :
    nthKey n ∉ (List.range n).map nthKey := by
  intro h
  obtain ⟨m, hm, hmn⟩ := List.mem_map.1 h
  rw [List.mem_range] at hm
  have := nthKey_injective (by omega) hn hmn
  omega

/-- The keys under which requests were registered are distinct. -/
theorem Sound.nodup_registered (h : l.Sound) (hsent : l.correlator.sent < 2 ^ 64) :
    (l.registered.map Prod.fst).Nodup := h.registered ▸ nodup_nthKeys hsent

/-- No request has the key of messages that answer nothing. -/
theorem Sound.key_ne_zero (h : l.Sound) (hsent : l.correlator.sent < 2 ^ 64) {key : CorrelationKey}
    (hkey : key ∈ l.registered.map Prod.fst) : key ≠ 0 := by
  rw [h.registered] at hkey
  obtain ⟨n, hn, rfl⟩ := List.mem_map.1 hkey
  rw [List.mem_range] at hn
  exact nthKey_ne_zero (by omega)

/-- No request both waits and has a fate, and none has two. -/
theorem Sound.nodup_classes (h : l.Sound) (hsent : l.correlator.sent < 2 ^ 64) :
    (l.correlator.pending.keys ++ l.fates.map Prod.fst).Nodup :=
  h.classes.nodup_iff.2 (h.nodup_registered hsent)

/-- A key with a fate does not wait. -/
theorem Sound.get?_eq_none_of_fate (h : l.Sound) (hsent : l.correlator.sent < 2 ^ 64)
    {key : CorrelationKey} (hkey : key ∈ l.fates.map Prod.fst) :
    l.correlator.pending.get? key = none := by
  rw [← Table.contains_eq_false_iff, ← Bool.not_eq_true, ← Table.mem_keys_iff]
  exact fun hp => List.disjoint_of_nodup_append (h.nodup_classes hsent) hp hkey

/-- No key has two fates. -/
theorem Sound.fate_unique (h : l.Sound) (hsent : l.correlator.sent < 2 ^ 64)
    {key : CorrelationKey} {fate other : Fate} (hfate : (key, fate) ∈ l.fates)
    (hother : (key, other) ∈ l.fates) : fate = other := by
  have hnodup := (h.nodup_classes hsent).of_append_right
  rw [← Table.lookup_eq_some_iff hnodup] at hfate hother
  exact Option.some.inj (hfate.symm.trans hother)

/-- A key with a fate has come to what the fate says. -/
theorem Sound.outcome_of_fate (h : l.Sound) (hsent : l.correlator.sent < 2 ^ 64)
    {key : CorrelationKey} {sent : Sent} {fate : Fate}
    (hkey : Table.lookup key l.registered = some sent) (hfate : (key, fate) ∈ l.fates) :
    l.correlator.outcome? key = fate.outcome? key
      (Correlator.entryFor l.correlator.config sent.request sent.timeout) := by
  have hnoted := (Table.lookup_eq_some_iff (h.nodup_classes hsent).of_append_right _ _).2 hfate
  rw [h.outcome, notedOutcome?, hnoted, hkey, Option.bind_some, Option.bind_some]

private theorem lookup_map_const {α : Type} (x : α) (key : CorrelationKey)
    (keys : List CorrelationKey) :
    Table.lookup key (keys.map (·, x)) = if key ∈ keys then some x else none := by
  induction keys with
  | nil => rfl
  | cons k keys ih =>
    rw [List.map_cons, Table.lookup, ih]
    by_cases hk : k = key
    · rw [if_pos hk, if_pos (hk ▸ List.mem_cons_self)]
    · simp only [hk, if_false, List.mem_cons, Ne.symm hk, false_or]

/-- The keys that leave are those that waited before and do not any more. -/
theorem mem_leavers {c d : Correlator} {key : CorrelationKey} :
    key ∈ leavers c d ↔ c.pending.contains key = true ∧ ¬d.pending.contains key = true := by
  rw [leavers, List.mem_filter, Table.mem_keys_iff, Bool.not_eq_true', Bool.not_eq_true]

/-- Nothing leaves a table that stays the same. -/
theorem leavers_eq_nil {c d : Correlator} (h : d.pending = c.pending) : leavers c d = [] := by
  refine List.eq_nil_iff_forall_not_mem.2 fun key hkey => ?_
  obtain ⟨hc, hd⟩ := mem_leavers.1 hkey
  exact hd (h ▸ hc)

/-- Where no request leaves, no fate is noted. -/
theorem leave_of_pending_eq {fate : Fate} {d : Correlator}
    (h : d.pending = l.correlator.pending) : l.leave fate d = { l with correlator := d } := by
  rw [leave, leavers_eq_nil h, List.map_nil, List.append_nil]

/-- The keys that waited are those that still wait and those that have left. -/
theorem perm_leavers {c d : Correlator} (h : d.pending.entries.Sublist c.pending.entries) :
    (d.pending.keys ++ leavers c d).Perm c.pending.keys := by
  have hstill : d.pending.keys.Perm (c.pending.keys.filter fun key => d.pending.contains key) := by
    refine (List.perm_ext_iff_of_nodup d.pending.nodup (c.pending.nodup.filter _)).2 fun key => ?_
    have hsub : key ∈ d.pending.keys → key ∈ c.pending.keys := fun hk => (h.map Prod.fst).subset hk
    change key ∈ d.pending.keys ↔ key ∈ c.pending.keys.filter _
    rw [List.mem_filter, ← Table.mem_keys_iff]
    exact ⟨fun hk => ⟨hsub hk, hk⟩, And.right⟩
  exact (hstill.append_right _).trans (List.filter_append_perm _ _)

private theorem Fits.mono {config : Config} {verdicts more : List (CorrelationKey × Bool)}
    {key : CorrelationKey} {sent : Sent} {fate : Fate} (h : Fits config verdicts key sent fate) :
    Fits config (verdicts ++ more) key sent fate := by
  cases fate with
  | withdrawn => exact List.mem_append_left more h
  | answered m time => exact h
  | timedOut | cancelled | tornDown => trivial

section Leave

variable {fate : Fate} {d : Correlator}

/-- Those that leave are moved from those that wait to those with a fate. -/
theorem Sound.classes_leave (h : l.Sound) (hs : Correlator.Settles fate l.correlator d) :
    (d.pending.keys ++ (l.leave fate d).fates.map Prod.fst).Perm (l.registered.map Prod.fst) := by
  rw [Ledger.leave]
  dsimp only
  rw [List.map_append, List.map_map]
  have hleft : (leavers l.correlator d).map (Prod.fst ∘ (·, fate)) = leavers l.correlator d :=
    List.map_id _
  rw [hleft]
  have hswap : (d.pending.keys ++ (l.fates.map Prod.fst ++ leavers l.correlator d)).Perm
      ((d.pending.keys ++ leavers l.correlator d) ++ l.fates.map Prod.fst) := by
    rw [List.append_assoc]
    exact List.perm_append_comm.append_left _
  exact hswap.trans (((perm_leavers hs.pending).append_right _).trans h.classes)

/-- What the books say after requests have left: the old fate of a key, or the new one if it is one
of those that have left. -/
theorem notedOutcome?_leave (l : Ledger) (hs : Correlator.Settles fate l.correlator d)
    (key : CorrelationKey) : (l.leave fate d).notedOutcome? key =
      ((Table.lookup key l.fates).or (if key ∈ leavers l.correlator d then some fate
        else none)).bind fun fate => (Table.lookup key l.registered).bind fun sent =>
          fate.outcome? key (Correlator.entryFor l.correlator.config sent.request
            sent.timeout) := by
  rw [notedOutcome?, Ledger.leave, ← lookup_map_const, ← Table.lookup_append, ← hs.config]

/-- The outcomes that were noted tell the fates of those that left. -/
theorem Sound.outcome_leave (h : l.Sound) (hsent : l.correlator.sent < 2 ^ 64)
    (hs : Correlator.Settles fate l.correlator d) (key : CorrelationKey) :
    d.outcome? key = (l.leave fate d).notedOutcome? key := by
  rw [l.notedOutcome?_leave hs, hs.outcome, h.outcome, notedOutcome?]
  cases hfate : Table.lookup key l.fates with
  | some old =>
    have hgone := h.get?_eq_none_of_fate hsent
      (List.mem_map_of_mem (f := Prod.fst) (Table.mem_of_lookup hfate))
    rw [Option.some_or, Option.bind_some, hgone, Option.bind_none, ite_self, Option.or_none]
  | none =>
    rw [Option.bind_none, Option.none_or, Option.none_or]
    by_cases hd : d.pending.contains key = true
    · rw [if_pos hd, if_neg fun hm => (mem_leavers.1 hm).2 hd, Option.bind_none]
    · rw [if_neg hd]
      cases hc : l.correlator.pending.get? key with
      | none =>
        have hnot : key ∉ leavers l.correlator d := by
          intro hm
          obtain ⟨request, hr⟩ := (Table.contains_eq_true_iff _ _).1 (mem_leavers.1 hm).1
          rw [hc] at hr
          cases hr
        rw [Option.bind_none, if_neg hnot, Option.bind_none]
      | some request =>
        have hin : key ∈ leavers l.correlator d :=
          mem_leavers.2 ⟨(Table.contains_eq_true_iff _ _).2 ⟨request, hc⟩, hd⟩
        obtain ⟨sent, hkey, rfl⟩ := h.waiting key request hc
        rw [if_pos hin, Option.bind_some, Option.bind_some, hkey, Option.bind_some]

private theorem countP_leavers (c d : Correlator) (fate : Fate) (ending : Ending) :
    ((leavers c d).map (·, fate)).countP (fun e => e.2.ending? = some ending) =
      if fate.ending? = some ending then (leavers c d).length else 0 := by
  rw [List.countP_map]
  split
  · next he => exact List.countP_eq_length.2 fun key _ => decide_eq_true he
  · next he => exact List.countP_eq_zero.2 fun key _ => by simpa using he

/-- The counters count those that left. -/
theorem Sound.tally_leave (h : l.Sound) (hs : Correlator.Settles fate l.correlator d)
    (ending : Ending) : d.tally.settledAs ending =
      (l.leave fate d).fates.countP fun e => e.2.ending? = some ending := by
  have hcount := (perm_leavers hs.pending).length_eq
  have htally := hs.tally ending
  have hsize (t : Table CorrelationKey Pending) : t.size = t.keys.length :=
    (List.length_map (f := Prod.fst)).symm
  rw [List.length_append] at hcount
  rw [hsize, hsize, h.tally] at htally
  rw [Ledger.leave]
  dsimp only
  rw [List.countP_append, countP_leavers]
  split at htally
  · rw [if_pos ‹_›]
    omega
  · rw [if_neg ‹_›]
    omega

/-- Requests that leave the table in a way that fits them leave the books in order. -/
theorem Sound.leave (h : l.Sound) (hsent : l.correlator.sent < 2 ^ 64)
    (hs : Correlator.Settles fate l.correlator d) (ha : d.Aligned)
    (hfits : ∀ key ∈ leavers l.correlator d, ∀ sent, Table.lookup key l.registered = some sent →
      Fits l.correlator.config l.verdicts key sent fate) : (l.leave fate d).Sound where
  aligned := ha
  registered := by
    rw [Ledger.leave]
    dsimp only
    rw [hs.sent, h.registered]
  classes := h.classes_leave hs
  waiting key request hk := by
    obtain ⟨sent, hsentKey, hrequest⟩ := h.waiting key request (hs.get?_of_some hk)
    exact ⟨sent, hsentKey, hs.config ▸ hrequest⟩
  outcome := h.outcome_leave hsent hs
  tally := h.tally_leave hs
  fits key f hf := by
    rw [Ledger.leave] at hf ⊢
    dsimp only at hf ⊢
    rw [hs.config]
    rcases List.mem_append.1 hf with hold | hnew
    · exact h.fits key f hold
    · obtain ⟨k, hk, heq⟩ := List.mem_map.1 hnew
      cases heq
      obtain ⟨request, hr⟩ := (Table.contains_eq_true_iff _ _).1 (mem_leavers.1 hk).1
      obtain ⟨sent, hkey, -⟩ := h.waiting key request hr
      exact ⟨sent, hkey, hfits key hk sent hkey⟩
  judged := h.judged
  judgedOnce := h.judgedOnce

end Leave

private theorem lookup_append_of_some {α : Type} {key : CorrelationKey} {x : α}
    {entries : List (CorrelationKey × α)} (h : Table.lookup key entries = some x)
    (more : List (CorrelationKey × α)) : Table.lookup key (entries ++ more) = some x := by
  rw [Table.lookup_append, h, Option.some_or]

private theorem Sound.nthKey_notMem (h : l.Sound) (hsent : l.correlator.sent + 1 < 2 ^ 64) :
    nthKey l.correlator.sent ∉ l.registered.map Prod.fst :=
  h.registered ▸ Ledger.nthKey_notMem hsent

/-- The next key is not waited for, so a request can be entered under it. -/
theorem Sound.enter_eq_ok (h : l.Sound) (hsent : l.correlator.sent + 1 < 2 ^ 64)
    (request : Request) (timeout : Nat) :
    ∃ handle d, l.correlator.enter l.now request timeout = (.ok handle, d) ∧
      l.correlator.Entered handle request timeout d := by
  refine h.aligned.enter_eq_ok l.now request timeout ?_
  have hnot : nthKey l.correlator.sent ∉ l.correlator.pending.keys := fun hm =>
    h.nthKey_notMem hsent (h.classes.subset (List.mem_append_left _ hm))
  rwa [Table.mem_keys_iff, Bool.not_eq_true, Table.contains_eq_false_iff] at hnot

/-- A request that is entered waits, and nothing else changes. -/
theorem Sound.entered (h : l.Sound) (hsent : l.correlator.sent + 1 < 2 ^ 64) {handle : Handle}
    {request : Request} {timeout : Nat} {d : Correlator}
    (he : l.correlator.Entered handle request timeout d) :
    Sound { l with
      correlator := d
      registered := l.registered ++ [(handle.key, ⟨request, timeout⟩)] } where
  aligned := h.aligned.entered he
  registered := by
    dsimp only
    rw [List.map_append, h.registered, he.sent, List.range_succ, List.map_append, he.key]
    rfl
  classes := by
    have hnot : handle.key ∉ l.correlator.pending.keys := by
      rw [Table.mem_keys_iff, Bool.not_eq_true, Table.contains_eq_false_iff]
      exact he.fresh
    have hkeys : d.pending.keys = l.correlator.pending.keys ++ [handle.key] := by
      rw [he.pending, Table.keys_set, if_neg hnot]
    have hswap : (d.pending.keys ++ l.fates.map Prod.fst).Perm
        ((l.correlator.pending.keys ++ l.fates.map Prod.fst) ++ [handle.key]) := by
      rw [hkeys, List.append_assoc, List.append_assoc]
      exact List.perm_append_comm.append_left _
    rw [List.map_append]
    exact hswap.trans (h.classes.append_right _)
  waiting key pending hk := by
    dsimp only at hk ⊢
    rw [he.pending, Table.get?_set] at hk
    rw [he.config]
    by_cases hkey : handle.key = key
    · rw [if_pos hkey, Option.some.injEq] at hk
      subst hkey hk
      have hnone : Table.lookup handle.key l.registered = none := by
        rw [Table.lookup_eq_none_iff, he.key]
        exact h.nthKey_notMem hsent
      refine ⟨⟨request, timeout⟩, ?_, rfl⟩
      rw [Table.lookup_append, hnone, Option.none_or, Table.lookup, if_pos rfl]
    · rw [if_neg hkey] at hk
      obtain ⟨sent, hlookup, hpending⟩ := h.waiting key pending hk
      exact ⟨sent, lookup_append_of_some hlookup _, hpending⟩
  outcome key := by
    have hout : d.outcome? key = l.correlator.outcome? key := by
      rw [Correlator.outcome?, Correlator.outcome?, he.settled]
    dsimp only
    rw [hout, h.outcome, notedOutcome?, notedOutcome?]
    dsimp only
    cases hfate : Table.lookup key l.fates with
    | none => rfl
    | some fate =>
      obtain ⟨sent, hlookup, -⟩ := h.fits key fate (Table.mem_of_lookup hfate)
      rw [Option.bind_some, Option.bind_some, hlookup, lookup_append_of_some hlookup, he.config]
  tally ending := he.tally ▸ h.tally ending
  fits key fate hf := by
    obtain ⟨sent, hlookup, hfits⟩ := h.fits key fate hf
    exact ⟨sent, lookup_append_of_some hlookup _, he.config ▸ hfits⟩
  judged key taken hv := by
    rw [List.map_append]
    exact List.mem_append_left _ (h.judged key taken hv)
  judgedOnce := h.judgedOnce

/-- A verdict changes none of the classes. -/
theorem Sound.judge (h : l.Sound) {key : CorrelationKey} (hkey : l.awaitsVerdict key = true)
    (taken : Bool) : Sound { l with verdicts := l.verdicts ++ [(key, taken)] } := by
  rw [awaitsVerdict, Bool.and_eq_true, Option.isNone_iff_eq_none, Option.isSome_iff_ne_none] at hkey
  obtain ⟨hregistered, hunjudged⟩ := hkey
  rw [ne_eq, Table.lookup_eq_none_iff, Decidable.not_not] at hregistered
  rw [Table.lookup_eq_none_iff] at hunjudged
  refine { h with fits := ?_, judged := ?_, judgedOnce := ?_ }
  · intro k fate hf
    obtain ⟨sent, hlookup, hfits⟩ := h.fits k fate hf
    exact ⟨sent, hlookup, hfits.mono⟩
  · intro k t hv
    rcases List.mem_append.1 hv with hold | hnew
    · exact h.judged k t hold
    · cases List.mem_singleton.1 hnew
      exact hregistered
  · rw [List.map_append, List.nodup_append]
    refine ⟨h.judgedOnce, List.nodup_singleton _, ?_⟩
    rintro k hk _ hnew rfl
    rw [List.map_singleton, List.mem_singleton] at hnew
    subst hnew
    exact hunjudged hk

private theorem eq_of_mem_leavers_drop {c : Correlator} {key x : CorrelationKey}
    (h : x ∈ leavers c (c.drop key)) : x = key := by
  obtain ⟨hc, hd⟩ := mem_leavers.1 h
  by_contra hx
  have hget := Table.get?_erase c.pending key x
  rw [if_neg (Ne.symm hx)] at hget
  refine hd ?_
  rw [Table.contains] at hc ⊢
  exact hget ▸ hc

/-- A message takes at most the request with its key, and only from the topic of its reply. -/
theorem of_mem_leavers_onMessage {c : Correlator} {now : Nat} {m : Message} {key : CorrelationKey}
    (h : key ∈ leavers c (c.onMessage now m)) : m.correlationId = key ∧
      ∃ request, c.pending.get? key = some request ∧ m.topic = request.replyTopic := by
  have hself (d : Correlator) (hd : d.pending = c.pending) : key ∉ leavers c d :=
    leavers_eq_nil hd ▸ List.not_mem_nil
  rcases c.onMessage_cases now m with
    ⟨-, he⟩ | ⟨-, -, he⟩ | ⟨request, -, hrequest, ⟨-, he⟩ | ⟨htopic, he⟩⟩ <;> rw [he] at h
  · exact absurd h (hself _ rfl)
  · exact absurd h (hself _ rfl)
  · exact absurd h (hself _ rfl)
  · obtain rfl := eq_of_mem_leavers_drop h
    exact ⟨rfl, request, hrequest, htopic⟩

/-- A move that sends nothing takes requests out of the table in one way, or leaves it alone. -/
theorem settles_step (l : Ledger) {move : Move} (h : move.isEnter = false) :
    ∃ fate, Correlator.Settles fate l.correlator (l.step move).correlator := by
  cases move with
  | enter request timeout => cases h
  | verdict key taken =>
    rw [step]
    split
    · cases taken with
      | true => exact ⟨.withdrawn, .refl _ _⟩
      | false => exact ⟨.withdrawn, Correlator.settles_drop _ key⟩
    · exact ⟨.withdrawn, .refl _ _⟩
  | message m => exact ⟨_, Correlator.settles_onMessage _ _ m⟩
  | cancel key => exact ⟨_, Correlator.settles_cancel _ key⟩
  | cancelOwnedBy job => exact ⟨_, Correlator.settles_cancelOwnedBy _ job⟩
  | close => exact ⟨_, Correlator.settles_close _⟩
  | fire => exact ⟨_, Correlator.settles_pollDeadlines _ _⟩
  | pass span => exact ⟨.withdrawn, .refl _ _⟩

/-- Sending a request counts it, whether it can be entered or not. -/
theorem sent_enter (l : Ledger) (request : Request) (timeout : Nat) :
    (l.step (.enter request timeout)).correlator.config = l.correlator.config ∧
      (l.step (.enter request timeout)).correlator.sent = l.correlator.sent + 1 := by
  rw [step]
  rcases l.correlator.enter_cases l.now request timeout with ⟨fault, he⟩ | ⟨handle, d, he, hd⟩
  · rw [he]
    exact ⟨rfl, rfl⟩
  · rw [he]
    exact ⟨hd.config, hd.sent⟩

/-- A move uses up a key if it enters a request. -/
theorem sent_step (l : Ledger) (move : Move) : (l.step move).correlator.sent =
    l.correlator.sent + if move.isEnter then 1 else 0 := by
  cases hmove : move.isEnter with
  | false =>
    obtain ⟨_, hs⟩ := l.settles_step hmove
    exact hs.sent
  | true =>
    cases move with
    | enter request timeout => exact (l.sent_enter request timeout).2
    | _ => cases hmove

/-- No move changes the configuration. -/
theorem config_step (l : Ledger) (move : Move) :
    (l.step move).correlator.config = l.correlator.config := by
  cases hmove : move.isEnter with
  | false =>
    obtain ⟨_, hs⟩ := l.settles_step hmove
    exact hs.config
  | true =>
    cases move with
    | enter request timeout => exact (l.sent_enter request timeout).1
    | _ => cases hmove

/-- A new ledger is empty. -/
theorem sound_start (config : Config) (now : Nat) : (start config now).Sound where
  aligned := Correlator.aligned_new config now
  registered := rfl
  classes := .refl _
  waiting _ _ h := nomatch h
  outcome _ := rfl
  tally ending := by cases ending <;> rfl
  fits _ _ h := nomatch h
  judged _ _ h := nomatch h
  judgedOnce := .nil

/-- Every move keeps the books in order. -/
theorem Sound.step (h : l.Sound) (move : Move)
    (hsent : (l.step move).correlator.sent < 2 ^ 64) : (l.step move).Sound := by
  rw [sent_step] at hsent
  have hnow : l.correlator.sent < 2 ^ 64 := by omega
  cases move with
  | enter request timeout =>
    obtain ⟨handle, d, he, hentered⟩ := h.enter_eq_ok hsent request timeout
    rw [Ledger.step, he]
    exact h.entered hsent hentered
  | verdict key taken =>
    rw [Ledger.step]
    split
    · next hkey =>
      have hjudged := h.judge hkey taken
      cases taken with
      | true => exact hjudged
      | false =>
        refine hjudged.leave hnow (Correlator.settles_drop _ key) (h.aligned.drop key) ?_
        intro x hx sent _
        obtain rfl := eq_of_mem_leavers_drop hx
        exact List.mem_append_right _ (List.mem_singleton_self _)
    · exact h
  | message m =>
    refine h.leave hnow (Correlator.settles_onMessage _ _ m) (h.aligned.onMessage _ m) ?_
    intro key hkey sent hlookup
    obtain ⟨hm, request, hrequest, htopic⟩ := of_mem_leavers_onMessage hkey
    obtain ⟨sent', hlookup', rfl⟩ := h.waiting key request hrequest
    rw [hlookup, Option.some.injEq] at hlookup'
    exact ⟨hm, hlookup' ▸ htopic⟩
  | cancel key =>
    exact h.leave hnow (Correlator.settles_cancel _ key) (h.aligned.cancel key)
      fun _ _ _ _ => trivial
  | cancelOwnedBy job =>
    exact h.leave hnow (Correlator.settles_cancelOwnedBy _ job) (h.aligned.cancelOwnedBy job)
      fun _ _ _ _ => trivial
  | close =>
    exact h.leave hnow (Correlator.settles_close _) h.aligned.close fun _ _ _ _ => trivial
  | fire =>
    exact h.leave hnow (Correlator.settles_pollDeadlines _ _) (h.aligned.pollDeadlines _)
      fun _ _ _ _ => trivial
  | pass span => exact { h with }

/-- A row of moves uses up as many keys as it enters requests. -/
theorem sent_foldl (l : Ledger) (moves : List Move) :
    (moves.foldl Ledger.step l).correlator.sent =
      l.correlator.sent + moves.countP Move.isEnter := by
  induction moves generalizing l with
  | nil => rfl
  | cons move moves ih =>
    rw [List.foldl_cons, ih, sent_step, List.countP_cons]
    omega

/-- A row of moves keeps a ledger sound, as long as keys last. -/
theorem Sound.foldl (h : l.Sound) (moves : List Move)
    (hsent : l.correlator.sent + moves.countP Move.isEnter < 2 ^ 64) :
    (moves.foldl Ledger.step l).Sound := by
  induction moves generalizing l with
  | nil => exact h
  | cons move moves ih =>
    rw [List.countP_cons] at hsent
    have hstep := sent_step l move
    refine ih (h.step move ?_) ?_
    · omega
    · omega

/-- The books of every run with less than `2 ^ 64` requests are in order. -/
theorem sound_run (config : Config) (now : Nat) {moves : List Move}
    (hsent : moves.countP Move.isEnter < 2 ^ 64) : (run config now moves).Sound :=
  (sound_start config now).foldl moves ((Nat.zero_add _).symm ▸ hsent)

/-- The books only grow from one moment to a later one. -/
structure Extends (l m : Ledger) : Prop where
  now_le : l.now ≤ m.now
  registered : l.registered <+: m.registered
  verdicts : l.verdicts <+: m.verdicts
  fates : l.fates <+: m.fates

private theorem Extends.refl (l : Ledger) : l.Extends l :=
  ⟨Nat.le_refl _, List.prefix_rfl, List.prefix_rfl, List.prefix_rfl⟩

private theorem Extends.trans {m n : Ledger} (h : l.Extends m) (k : m.Extends n) : l.Extends n where
  now_le := Nat.le_trans h.now_le k.now_le
  registered := h.registered.trans k.registered
  verdicts := h.verdicts.trans k.verdicts
  fates := h.fates.trans k.fates

private theorem extends_leave (l : Ledger) (fate : Fate) (d : Correlator) :
    l.Extends (l.leave fate d) :=
  { Extends.refl l with fates := List.prefix_append _ _ }

/-- A move only adds to a ledger. -/
theorem extends_step (l : Ledger) (move : Move) : l.Extends (l.step move) := by
  cases move with
  | enter request timeout =>
    rw [step]
    split
    · exact { Extends.refl l with registered := List.prefix_append _ _ }
    · exact { Extends.refl l with }
  | verdict key taken =>
    rw [step]
    split
    · have hjudged : l.Extends { l with verdicts := l.verdicts ++ [(key, taken)] } :=
        { Extends.refl l with verdicts := List.prefix_append _ _ }
      cases taken with
      | true => exact hjudged
      | false => exact hjudged.trans (extends_leave _ _ _)
    · exact .refl l
  | pass span => exact { Extends.refl l with now_le := Nat.le_add_right _ _ }
  | message _ | cancel _ | cancelOwnedBy _ | close | fire => exact extends_leave l _ _

/-- A row of moves only adds to a ledger. -/
theorem extends_foldl (l : Ledger) (moves : List Move) :
    l.Extends (moves.foldl Ledger.step l) := by
  induction moves generalizing l with
  | nil => exact .refl l
  | cons move moves ih => exact (l.extends_step move).trans (ih _)

/-- A request that is registered stays registered. -/
theorem Extends.lookup_registered {m : Ledger} (h : l.Extends m) {key : CorrelationKey}
    {sent : Sent} (hkey : Table.lookup key l.registered = some sent) :
    Table.lookup key m.registered = some sent := by
  obtain ⟨more, hmore⟩ := h.registered
  exact hmore ▸ lookup_append_of_some hkey more

/-- The channel has yet to pass its verdict on a request that has just been entered. -/
theorem Sound.awaitsVerdict_enter (h : l.Sound) (hsent : l.correlator.sent + 1 < 2 ^ 64)
    (request : Request) (timeout : Nat) :
    (l.step (.enter request timeout)).awaitsVerdict (nthKey l.correlator.sent) = true := by
  obtain ⟨handle, d, he, hentered⟩ := h.enter_eq_ok hsent request timeout
  have hkey : handle.key = nthKey l.correlator.sent := hentered.key
  have hnone : Table.lookup handle.key l.registered = none := by
    rw [Table.lookup_eq_none_iff, hkey]
    exact h.nthKey_notMem hsent
  have hunjudged : Table.lookup handle.key l.verdicts = none := by
    rw [Table.lookup_eq_none_iff]
    intro hm
    obtain ⟨⟨k, taken⟩, hv, hk⟩ := List.mem_map.1 hm
    exact Table.lookup_eq_none_iff.1 hnone (hk ▸ h.judged k taken hv)
  rw [awaitsVerdict, Ledger.step, he, ← hkey]
  dsimp only
  rw [Table.lookup_append, hnone, Option.none_or, hunjudged, Table.lookup, if_pos rfl]
  rfl

/-- Sending a request is two moves: entering it, and the verdict of the channel on its message. -/
theorem Sound.correlator_send {β : Type} (h : l.Sound) (hsent : l.correlator.sent + 1 < 2 ^ 64)
    (publish : Message → Except Fault β) (request : Request) (timeout : Nat) :
    (l.correlator.send l.now publish request timeout).2 =
      ((l.step (.enter request timeout)).step (.verdict (nthKey l.correlator.sent)
        (publish ((l.step (.enter request timeout)).correlator.message
          (nthKey l.correlator.sent) request l.now)).isOk)).correlator := by
  obtain ⟨handle, d, he, hentered⟩ := h.enter_eq_ok hsent request timeout
  have hkey : handle.key = nthKey l.correlator.sent := hentered.key
  have hl : l.step (.enter request timeout) = { l with
      correlator := d
      registered := l.registered ++ [(handle.key, ⟨request, timeout⟩)] } := by
    rw [Ledger.step, he]
  have hawaits := h.awaitsVerdict_enter hsent request timeout
  rw [Correlator.send_eq, he, ← hkey]
  rw [← hkey] at hawaits
  generalize l.step (.enter request timeout) = entered at hl hawaits ⊢
  rw [Ledger.step, if_pos hawaits, hl]
  dsimp only
  cases publish (d.message handle.key request l.now) <;> rfl

/-- A key stands where its request is: in the table, or out of it in some way. -/
def Stands (l : Ledger) (key : CorrelationKey) : Option Fate → Prop
  | none => l.correlator.pending.contains key = true
  | some fate => (key, fate) ∈ l.fates

/-- Requests whose messages were refused do not wait. -/
def Refusals (l : Ledger) : Prop :=
  ∀ key, (key, false) ∈ l.verdicts → l.correlator.pending.get? key = none

private theorem Refusals.leave {fate : Fate} {d : Correlator} (hr : l.Refusals)
    (hs : Correlator.Settles fate l.correlator d) : (l.leave fate d).Refusals :=
  fun key hv => hs.get?_eq_none (hr key hv)

/-- After a move too, no request waits whose message was refused. -/
theorem Refusals.step (hr : l.Refusals) (h : l.Sound) (move : Move)
    (hsent : (l.step move).correlator.sent < 2 ^ 64) : (l.step move).Refusals := by
  rw [sent_step] at hsent
  cases move with
  | enter request timeout =>
    obtain ⟨handle, d, he, hentered⟩ := h.enter_eq_ok hsent request timeout
    rw [Ledger.step, he]
    intro key hv
    have hne : handle.key ≠ key := by
      have hkey : handle.key = nthKey l.correlator.sent := hentered.key
      rintro rfl
      exact h.nthKey_notMem hsent (hkey ▸ h.judged _ false hv)
    dsimp only
    rw [hentered.pending, Table.get?_set_ne _ _ hne]
    exact hr key hv
  | verdict key taken =>
    rw [Ledger.step]
    split
    · cases taken with
      | true =>
        intro k hv
        rcases List.mem_append.1 hv with hold | hnew
        · exact hr k hold
        · cases List.mem_singleton.1 hnew
      | false =>
        intro k hv
        have hget := Table.get?_erase l.correlator.pending key k
        rcases List.mem_append.1 hv with hold | hnew
        · rw [hr k hold, ite_self] at hget
          exact hget
        · cases List.mem_singleton.1 hnew
          rw [if_pos rfl] at hget
          exact hget
    · exact hr
  | message m => exact hr.leave (Correlator.settles_onMessage _ _ m)
  | cancel key => exact hr.leave (Correlator.settles_cancel _ key)
  | cancelOwnedBy job => exact hr.leave (Correlator.settles_cancelOwnedBy _ job)
  | close => exact hr.leave (Correlator.settles_close _)
  | fire => exact hr.leave (Correlator.settles_pollDeadlines _ _)
  | pass span => exact hr

/-- After a row of moves no request waits whose message was refused. -/
theorem refusals_foldl (h : l.Sound) (hr : l.Refusals) (moves : List Move)
    (hsent : l.correlator.sent + moves.countP Move.isEnter < 2 ^ 64) :
    (moves.foldl Ledger.step l).Refusals := by
  induction moves generalizing l with
  | nil => exact hr
  | cons move moves ih =>
    rw [List.countP_cons] at hsent
    have hstep := sent_step l move
    have hbound : (l.step move).correlator.sent < 2 ^ 64 := by omega
    refine ih (h.step move hbound) (hr.step h move hbound) ?_
    omega

/-- A request stands in one place at a time: those that wait have no fate, and no key has two. -/
theorem Sound.existsUnique_standing (h : l.Sound) (hsent : l.correlator.sent < 2 ^ 64)
    {key : CorrelationKey} (hkey : key ∈ l.registered.map Prod.fst) :
    ∃! standing, l.Stands key standing := by
  rcases List.mem_append.1 (h.classes.mem_iff.2 hkey) with hwaits | hleft
  · refine ⟨none, (Table.mem_keys_iff _ _).1 hwaits, ?_⟩
    rintro (- | fate) hstands
    · rfl
    · have hmem := List.mem_map_of_mem (f := Prod.fst) hstands
      exact absurd hmem fun hm => List.disjoint_of_nodup_append (h.nodup_classes hsent) hwaits hm
  · obtain ⟨⟨k, fate⟩, hf, rfl⟩ := List.mem_map.1 hleft
    refine ⟨some fate, hf, ?_⟩
    rintro (- | fate') hstands
    · have hnone := h.get?_eq_none_of_fate hsent hleft
      rw [← Table.contains_eq_false_iff, ← Bool.not_eq_true] at hnone
      exact absurd hstands hnone
    · exact congrArg some (h.fate_unique hsent hstands hf)

/-- What the books of a run show after `sends` requests were sent. -/
structure Balanced (config : Config) (sends : Nat) (l : Ledger) : Prop where
  /-- Every request that was sent is registered. -/
  registered : l.registered.length = sends
  /-- The keys are handed out once. -/
  distinct : (l.registered.map Prod.fst).Nodup
  nonzero : ∀ key ∈ l.registered.map Prod.fst, key ≠ 0
  /-- Every registered key stands in one place. -/
  standing : ∀ key ∈ l.registered.map Prod.fst, ∃! standing, l.Stands key standing
  known : ∀ key standing, l.Stands key standing → key ∈ l.registered.map Prod.fst
  /-- A request that waits is the one that was sent, and has come to nothing yet. -/
  waits : ∀ key sent, (key, sent) ∈ l.registered → l.Stands key none →
    l.correlator.pending.get? key = some (Correlator.entryFor config sent.request sent.timeout) ∧
      l.correlator.outcome? key = none
  /-- A request that has left the table has come to what its fate says. -/
  received : ∀ key sent fate, (key, sent) ∈ l.registered → l.Stands key (some fate) →
    l.correlator.outcome? key =
        fate.outcome? key (Correlator.entryFor config sent.request sent.timeout) ∧
      Fits config l.verdicts key sent fate
  /-- Refused requests do not wait, and the others are not withdrawn. -/
  refused : ∀ key, (key, false) ∈ l.verdicts → ¬l.Stands key none
  taken : ∀ key, (key, true) ∈ l.verdicts → ¬l.Stands key (some .withdrawn)
  /-- The counters count the fates, and no key has two of them. -/
  counted : ∀ ending, l.correlator.tally.settledAs ending =
    l.fates.countP fun e => e.2.ending? = some ending
  fatesOnce : (l.fates.map Prod.fst).Nodup
  /-- Nothing is missing from the sum. -/
  total : l.registered.length = l.correlator.pending.size + l.correlator.tally.responses +
    l.correlator.tally.timeouts + l.correlator.tally.cancellations +
    l.correlator.tally.teardowns + l.fates.countP fun e => e.2 = .withdrawn

/-- Every fate is counted as one of the four ends or is a withdrawal. -/
theorem length_fates (fates : List (CorrelationKey × Fate)) :
    fates.length = fates.countP (fun e => e.2.ending? = some .answered) +
      fates.countP (fun e => e.2.ending? = some .timedOut) +
      fates.countP (fun e => e.2.ending? = some .cancelled) +
      fates.countP (fun e => e.2.ending? = some .tornDown) +
      fates.countP fun e => e.2 = .withdrawn := by
  induction fates with
  | nil => rfl
  | cons e fates ih =>
    obtain ⟨key, fate⟩ := e
    simp only [List.length_cons, List.countP_cons, ih]
    cases fate <;> simp [Fate.ending?] <;> omega

/-- Every request that was registered waits, or is counted by its ending, or was withdrawn. -/
theorem Sound.total (h : l.Sound) : l.registered.length = l.correlator.pending.size +
    l.correlator.tally.responses + l.correlator.tally.timeouts + l.correlator.tally.cancellations +
    l.correlator.tally.teardowns + l.fates.countP fun e => e.2 = .withdrawn := by
  have hlength := h.classes.length_eq
  rw [List.length_append, List.length_map, List.length_map, Table.keys, List.length_map,
    length_fates] at hlength
  have hresponses := h.tally .answered
  have htimeouts := h.tally .timedOut
  have hcancellations := h.tally .cancelled
  have hteardowns := h.tally .tornDown
  simp only [Tally.settledAs] at hresponses htimeouts hcancellations hteardowns
  rw [Table.size, hresponses, htimeouts, hcancellations, hteardowns]
  omega

/-- No row of moves changes the configuration. -/
theorem config_foldl (l : Ledger) (moves : List Move) :
    (moves.foldl Ledger.step l).correlator.config = l.correlator.config := by
  induction moves generalizing l with
  | nil => rfl
  | cons move moves ih => rw [List.foldl_cons, ih, config_step]

/-- A sound ledger is balanced. -/
theorem Sound.balanced (h : l.Sound) (hr : l.Refusals) (hsent : l.correlator.sent < 2 ^ 64) :
    l.Balanced l.correlator.config l.correlator.sent where
  registered := by
    have hlength := congrArg List.length h.registered
    rwa [List.length_map, List.length_map, List.length_range] at hlength
  distinct := h.nodup_registered hsent
  nonzero _ hkey := h.key_ne_zero hsent hkey
  standing _ hkey := h.existsUnique_standing hsent hkey
  known key standing hstands := by
    refine h.classes.subset (List.mem_append.2 ?_)
    cases standing with
    | none => exact Or.inl ((Table.mem_keys_iff _ _).2 hstands)
    | some fate => exact Or.inr (List.mem_map_of_mem (f := Prod.fst) hstands)
  waits key sent hkey hwaits := by
    obtain ⟨request, hrequest⟩ := (Table.contains_eq_true_iff _ _).1 hwaits
    obtain ⟨sent', hlookup, rfl⟩ := h.waiting key request hrequest
    have hthis := (Table.lookup_eq_some_iff (h.nodup_registered hsent) key sent).2 hkey
    rw [hthis, Option.some.injEq] at hlookup
    subst hlookup
    refine ⟨hrequest, ?_⟩
    rw [h.outcome, notedOutcome?]
    cases hfate : Table.lookup key l.fates with
    | none => rfl
    | some fate =>
      have hgone := h.get?_eq_none_of_fate hsent
        (List.mem_map_of_mem (f := Prod.fst) (Table.mem_of_lookup hfate))
      rw [hgone] at hrequest
      cases hrequest
  received key sent fate hkey hfate := by
    obtain ⟨sent', hlookup, hfits⟩ := h.fits key fate hfate
    have hthis := (Table.lookup_eq_some_iff (h.nodup_registered hsent) key sent).2 hkey
    have hout := h.outcome_of_fate hsent hthis hfate
    rw [hthis, Option.some.injEq] at hlookup
    subst hlookup
    exact ⟨hout, hfits⟩
  refused key hv hwaits := by
    rw [Stands, Table.contains, hr key hv] at hwaits
    cases hwaits
  taken key hv hfate := by
    obtain ⟨sent, -, hrefused⟩ := h.fits key _ hfate
    have htrue := (Table.lookup_eq_some_iff h.judgedOnce key true).2 hv
    have hfalse := (Table.lookup_eq_some_iff h.judgedOnce key false).2 hrefused
    rw [htrue] at hfalse
    cases hfalse
  counted := h.tally
  fatesOnce := (h.nodup_classes hsent).of_append_right
  total := h.total

/-- In every run with less than `2 ^ 64` requests each of them stands in one place and has come to
what its place says, the counters tell how many have come to which end, and what has left the table
stays where it stands however the run goes on. -/
theorem balanced_run (config : Config) (now : Nat) (moves more : List Move)
    (hsent : moves.countP Move.isEnter < 2 ^ 64) :
    Balanced config (moves.countP Move.isEnter) (run config now moves) ∧
      ∀ key fate, (run config now moves).Stands key (some fate) →
        (run config now (moves ++ more)).Stands key (some fate) := by
  have hzero : (start config now).correlator.sent + moves.countP Move.isEnter =
      moves.countP Move.isEnter := Nat.zero_add _
  have hrefusals : (start config now).Refusals := fun _ hv => nomatch hv
  have hbalanced := (sound_run config now hsent).balanced
    (refusals_foldl (sound_start config now) hrefusals moves (hzero.symm ▸ hsent))
    (by rwa [run, sent_foldl, hzero])
  rw [run, config_foldl, sent_foldl, hzero] at hbalanced
  refine ⟨hbalanced, ?_⟩
  intro key fate hfate
  rw [run, List.foldl_append]
  exact (extends_foldl _ more).fates.subset hfate

/-- A request that is answered, one that is refused and one that times out. -/
def threeEnds : List Move :=
  [.enter ⟨"edge-1", "status", [], none⟩ 100, .verdict 1 true,
    .enter ⟨"edge-2", "status", [], none⟩ 5,
    .message ⟨"fleet/edge-1/reply", 1, 0, [7], "edge-1"⟩, .verdict 2 false,
    .enter ⟨"edge-3", "status", [], some 4⟩ 20, .pass (Nanos.ofSeconds 1), .fire]

/-- One request is answered, one is withdrawn and one runs out of time. -/
theorem balanced_run_threeEnds :
    threeEnds.countP Move.isEnter < 2 ^ 64 ∧
      (run .standard 0 threeEnds).fates =
        [(1, .answered ⟨"fleet/edge-1/reply", 1, 0, [7], "edge-1"⟩ 0), (2, .withdrawn),
          (3, .timedOut)] ∧
      Balanced .standard 3 (run .standard 0 threeEnds) :=
  have hsent : threeEnds.countP Move.isEnter < 2 ^ 64 := by decide
  ⟨hsent, by decide +kernel, (balanced_run .standard 0 threeEnds [] hsent).1⟩

end Ledger

end Flotilla
