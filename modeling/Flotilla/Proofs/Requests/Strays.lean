import Flotilla.Proofs.Requests.Handles

/-!
# Messages that answer nothing

A message that is not the reply to a request that waits when it comes in changes nothing but the
count of messages that were for nobody (`Correlator.onMessage_of_stray`), and no operation looks at
that count (`Correlator.Deaf`). So a run to which such messages are added, in whatever number and at
whatever moments, goes through the same states as the run without them (`Desk.undisturbed_run`):
whether they are forged, late, sent twice or without a key, nobody who waits notices.
-/

namespace Flotilla

namespace Correlator

/-- A message is the reply to a request that waits: it has its key and comes on the topic of its
reply. -/
def answers (c : Correlator) (m : Message) : Bool :=
  (c.pending.get? m.correlationId).any fun request => m.topic = request.replyTopic

/-- A message has a key, and nothing waits under it. -/
def discards (c : Correlator) (m : Message) : Bool :=
  m.correlationId ≠ 0 && !c.pending.contains m.correlationId

/-- The same requests, with so many more messages that were for none. -/
def discarding (c : Correlator) (count : Nat) : Correlator :=
  { c with tally := { c.tally with discarded := c.tally.discarded + count } }

/-- A message that answers nothing is counted if nothing waits under its key, and that is all. -/
theorem onMessage_of_stray {c : Correlator} {m : Message} (h : c.answers m = false) (now : Nat) :
    c.onMessage now m = c.discarding (if c.discards m then 1 else 0) := by
  rcases c.onMessage_cases now m with
    ⟨hzero, he⟩ | ⟨hkey, hnone, he⟩ | ⟨request, hkey, hrequest, ⟨-, he⟩ | ⟨htopic, -⟩⟩
  · have hkept : c.discards m = false := by
      rw [discards, hzero]
      rfl
    rw [he, hkept]
    rfl
  · have hcounted : c.discards m = true := by
      rw [discards, decide_eq_true hkey, Table.contains, hnone]
      rfl
    rw [he, hcounted]
    rfl
  · have hkept : c.discards m = false := by
      rw [discards, Table.contains, hrequest, Option.isSome_some, Bool.not_true, Bool.and_false]
    rw [he, hkept]
    rfl
  · rw [answers, hrequest, Option.any_some, decide_eq_true htopic] at h
    cases h

private theorem foldl_discarding {α : Type} {f : Correlator → α → Correlator}
    (h : ∀ c a count, f (c.discarding count) a = (f c a).discarding count) (l : List α)
    (c : Correlator) (count : Nat) :
    l.foldl f (c.discarding count) = (l.foldl f c).discarding count := by
  induction l generalizing c with
  | nil => rfl
  | cons a l ih => rw [List.foldl_cons, List.foldl_cons, h, ih]

/-- What was discarded before makes no difference to a message that comes in. -/
theorem onMessage_discarding (c : Correlator) (count now : Nat) (m : Message) :
    (c.discarding count).onMessage now m = (c.onMessage now m).discarding count := by
  unfold onMessage
  dsimp only [discarding]
  split
  · rfl
  · cases c.pending.get? m.correlationId with
    | none =>
      dsimp only
      rw [Nat.add_right_comm]
    | some request =>
      dsimp only
      split <;> rfl

private theorem cancel_discarding (c : Correlator) (count : Nat) (key : CorrelationKey) :
    (c.discarding count).cancel key = ((c.cancel key).1, (c.cancel key).2.discarding count) := by
  unfold cancel
  dsimp only [discarding]
  cases c.pending.get? key <;> rfl

private theorem cancelOwnedBy_discarding (c : Correlator) (count : Nat) (job : JobId) :
    (c.discarding count).cancelOwnedBy job =
      ((c.cancelOwnedBy job).1, (c.cancelOwnedBy job).2.discarding count) := by
  unfold cancelOwnedBy
  have hkeys : (c.discarding count).keysOwnedBy job = c.keysOwnedBy job := rfl
  rw [hkeys]
  clear hkeys
  generalize c.keysOwnedBy job = keys
  generalize 0 = found
  induction keys generalizing found c with
  | nil => rfl
  | cons key keys ih =>
    rw [List.foldl_cons, List.foldl_cons]
    dsimp only
    rw [cancel_discarding, ih]

private theorem close_discarding (c : Correlator) (count : Nat) :
    (c.discarding count).close.2 = c.close.2.discarding count :=
  foldl_discarding (fun _ _ _ => rfl) c.pending.entries c count

private theorem expire_discarding (c : Correlator) (count : Nat) (key : CorrelationKey) :
    (c.discarding count).expire key = (c.expire key).discarding count := by
  unfold expire
  dsimp only [discarding]
  cases c.pending.get? key <;> rfl

/-- What was discarded before makes no difference to the deadlines. -/
theorem pollDeadlines_discarding (c : Correlator) (count now : Nat) :
    (c.discarding count).pollDeadlines now = (c.pollDeadlines now).discarding count :=
  foldl_discarding (fun c e count => c.expire_discarding count e.1) (c.supervisor.poll now).1
    { c with supervisor := (c.supervisor.poll now).2 } count

/-- What was discarded before makes no difference to a request that is entered. -/
theorem enter_discarding (c : Correlator) (count now : Nat) (request : Request) (timeout : Nat) :
    (c.discarding count).enter now request timeout =
      ((c.enter now request timeout).1, (c.enter now request timeout).2.discarding count) := by
  unfold enter register
  dsimp only [discarding]
  by_cases hpending : c.pending.contains (UInt64.ofNat (c.sent + 1)) = true
  · rw [if_pos hpending, if_pos hpending]
  · rw [if_neg hpending, if_neg hpending]
    cases c.supervisor.scheduleAt (UInt64.ofNat (c.sent + 1))
      (c.supervisor.deadlineAfter now timeout) () <;> rfl

end Correlator

/-- The time for which a request has waited. -/
structure Period where
  since : Nat
  /-- Nothing while it still waits. -/
  until? : Option Nat
  deriving DecidableEq, Repr

namespace Desk

open Ledger (Move)

/-- What two runs have in common, and what only the second one goes through. -/
inductive Entry where
  /-- A move of both runs. -/
  | common (move : Move)
  /-- A message that comes in during the second run alone. -/
  | extra (m : Message)

/-- The moves of the first run. -/
def plain (entries : List Entry) : List Move :=
  entries.filterMap fun
    | .common move => some move
    | .extra _ => none

/-- The moves of the second run. -/
def disturbed (entries : List Entry) : List Move :=
  entries.map fun
    | .common move => move
    | .extra m => .message m

/-- None of the extra messages answers a request that waits when it comes in. -/
def Strays (d : Desk) : List Entry → Prop
  | [] => True
  | .common move :: rest => (d.step move).Strays rest
  | .extra m :: rest => d.correlator.answers m = false ∧ (d.step (.message m)).Strays rest

/-- How many of the extra messages have a key under which nothing waits when they come in. -/
def discards (d : Desk) : List Entry → Nat
  | [] => 0
  | .common move :: rest => (d.step move).discards rest
  | .extra m :: rest =>
    (if d.correlator.discards m then 1 else 0) + (d.step (.message m)).discards rest

/-- The periods of a key, the latest first, once it is seen whether a request waits under it. -/
def observe (d : Desk) (key : CorrelationKey) : List Period → List Period
  | ⟨since, none⟩ :: past =>
    if d.correlator.pending.contains key then ⟨since, none⟩ :: past
    else ⟨since, some d.now⟩ :: past
  | past => if d.correlator.pending.contains key then ⟨d.now, none⟩ :: past else past

/-- The periods in which a request has waited under a key, the latest first, when these moves are
made and it waited for so long in the past. -/
def periods (d : Desk) (key : CorrelationKey) (past : List Period) : List Move → List Period
  | [] => d.observe key past
  | move :: moves => (d.step move).periods key (d.observe key past) moves

/-- The same desk, with so many more messages that were for no request. -/
def discarding (d : Desk) (count : Nat) : Desk :=
  { d with correlator := d.correlator.discarding count }

variable {d e : Desk}

/-- What was discarded before makes no difference to a move. -/
theorem step_discarding (d : Desk) (count : Nat) (move : Move) :
    (d.discarding count).step move = (d.step move).discarding count := by
  cases move with
  | enter request timeout =>
    dsimp only [step, discarding]
    rw [Correlator.enter_discarding]
    rcases d.correlator.enter d.now request timeout with ⟨_ | handle, c⟩ <;> rfl
  | verdict key taken => cases taken <;> rfl
  | message m =>
    dsimp only [step, discarding]
    rw [Correlator.onMessage_discarding]
  | cancel key =>
    dsimp only [step, discarding]
    rw [Correlator.cancel_discarding]
  | cancelOwnedBy job =>
    dsimp only [step, discarding]
    rw [Correlator.cancelOwnedBy_discarding]
  | close =>
    dsimp only [step, discarding]
    rw [Correlator.close_discarding]
  | fire =>
    dsimp only [step, discarding]
    rw [Correlator.pollDeadlines_discarding]
  | pass span => rfl

/-- A message that answers nothing only counts. -/
theorem step_of_stray {m : Message} (h : d.correlator.answers m = false) :
    d.step (.message m) = d.discarding (if d.correlator.discards m then 1 else 0) := by
  rw [step, Correlator.onMessage_of_stray h]
  rfl

private theorem discarding_discarding (d : Desk) (a b : Nat) :
    (d.discarding a).discarding b = d.discarding (a + b) := by
  simp only [discarding, Correlator.discarding, Nat.add_assoc]

/-- Looking twice at the same moment shows nothing new. -/
theorem observe_observe (d : Desk) (key : CorrelationKey) (past : List Period) :
    d.observe key (d.observe key past) = d.observe key past := by
  unfold observe
  cases d.correlator.pending.contains key <;>
    rcases past with _ | ⟨⟨since, _ | until_⟩, past⟩ <;> rfl

private theorem periods_observe (d : Desk) (key : CorrelationKey) (past : List Period)
    (moves : List Move) : d.periods key (d.observe key past) moves = d.periods key past moves := by
  cases moves with
  | nil => exact d.observe_observe key past
  | cons move moves => rw [periods, periods, observe_observe]

/-- The second run comes to the state of the first, but for the count. -/
theorem foldl_disturbed (d : Desk) (count : Nat) {entries : List Entry}
    (h : (d.discarding count).Strays entries) :
    (disturbed entries).foldl step (d.discarding count) =
      ((plain entries).foldl step d).discarding
        (count + (d.discarding count).discards entries) := by
  induction entries generalizing d count with
  | nil => rfl
  | cons entry rest ih =>
    cases entry with
    | common move =>
      have hstep := d.step_discarding count move
      rw [Strays, hstep] at h
      rw [discards, hstep]
      change (disturbed rest).foldl step ((d.discarding count).step move) = _
      rw [hstep, ih _ _ h]
      rfl
    | extra m =>
      obtain ⟨hstray, hrest⟩ := h
      have hstep := step_of_stray hstray
      rw [discarding_discarding] at hstep
      rw [hstep] at hrest
      rw [discards, hstep, ← Nat.add_assoc]
      change (disturbed rest).foldl step ((d.discarding count).step (.message m)) = _
      rw [hstep, ih _ _ hrest]
      rfl

/-- In the second run, requests wait when they do in the first. -/
theorem periods_disturbed (d : Desk) (count : Nat) {entries : List Entry}
    (h : (d.discarding count).Strays entries) (key : CorrelationKey) (past : List Period) :
    (d.discarding count).periods key past (disturbed entries) =
      d.periods key past (plain entries) := by
  induction entries generalizing d count past with
  | nil => rfl
  | cons entry rest ih =>
    cases entry with
    | common move =>
      have hstep := d.step_discarding count move
      rw [Strays, hstep] at h
      change ((d.discarding count).step move).periods key (d.observe key past) (disturbed rest) = _
      rw [hstep, ih _ _ h]
      rfl
    | extra m =>
      obtain ⟨hstray, hrest⟩ := h
      have hstep := step_of_stray hstray
      rw [discarding_discarding] at hstep
      rw [hstep] at hrest
      change ((d.discarding count).step (.message m)).periods key (d.observe key past)
        (disturbed rest) = _
      rw [hstep, ih _ _ hrest, periods_observe]
      rfl

private theorem Strays.of_append {before after : List Entry} (h : d.Strays (before ++ after)) :
    d.Strays before := by
  induction before generalizing d with
  | nil => trivial
  | cons entry before ih =>
    cases entry with
    | common move => exact ih h
    | extra m => exact ⟨h.1, ih h.2⟩

/-- Nobody who sends requests or waits for them can tell two desks apart. -/
structure Alike (d e : Desk) : Prop where
  now : e.now = d.now
  /-- The same requests have been sent, and were told the same deadlines. -/
  handles : e.handles = d.handles
  /-- The same requests wait, -/
  pending : e.correlator.pending = d.correlator.pending
  /-- until the same deadlines. -/
  supervisor : e.correlator.supervisor = d.correlator.supervisor
  /-- The others have come to the same, in the same order. -/
  settled : e.correlator.settled = d.correlator.settled
  counted : ∀ ending, e.correlator.tally.settledAs ending = d.correlator.tally.settledAs ending

/-- Desks that differ in what they have discarded are alike. -/
theorem alike_discarding (d : Desk) (count : Nat) : d.Alike (d.discarding count) :=
  ⟨rfl, rfl, rfl, rfl, rfl, fun ending => by cases ending <;> rfl⟩

/-- When messages that answer nothing at their moment come in besides, at whatever moments, then the
two runs look alike at every moment that they have in common: each request has the same deadline,
waits in the same period and comes to the same outcome. Only the count of messages that were for no
request differs, by those of the additional messages that have a key under which nothing waits. -/
theorem undisturbed_run (config : Config) (now : Nat) (entries : List Entry)
    (h : (start config now).Strays entries) :
    (∀ before after, entries = before ++ after →
      (run config now (plain before)).Alike (run config now (disturbed before))) ∧
    (∀ key, (run config now (disturbed entries)).correlator.outcome? key =
        (run config now (plain entries)).correlator.outcome? key ∧
      (start config now).periods key [] (disturbed entries) =
        (start config now).periods key [] (plain entries)) ∧
    (run config now (disturbed entries)).correlator.tally.discarded =
      (run config now (plain entries)).correlator.tally.discarded +
        (start config now).discards entries := by
  have hrun {before : List Entry} (hbefore : (start config now).Strays before) :
      run config now (disturbed before) =
        (run config now (plain before)).discarding (0 + (start config now).discards before) :=
    foldl_disturbed (start config now) 0 hbefore
  refine ⟨?_, fun key => ⟨?_, periods_disturbed (start config now) 0 h key []⟩, ?_⟩
  · rintro before after rfl
    rw [hrun h.of_append]
    exact alike_discarding _ _
  · rw [hrun h]
    rfl
  · rw [hrun h, Nat.zero_add]
    rfl

instance decidableStrays : (d : Desk) → (entries : List Entry) → Decidable (d.Strays entries)
  | _, [] => inferInstanceAs (Decidable True)
  | d, .common move :: rest => decidableStrays (d.step move) rest
  | d, .extra m :: rest =>
    have := decidableStrays (d.step (.message m)) rest
    inferInstanceAs (Decidable (d.correlator.answers m = false ∧ (d.step (.message m)).Strays rest))

/-- A message that says it answers a request. -/
def claimed (topic : String) (key : CorrelationKey) : Message := ⟨topic, key, 0, [7], "edge-1"⟩

/-- Of two requests one is answered and one times out. In between, messages come with keys that are
not given out yet, on the topic of another request, without a key, a second time and too late. -/
def besieged : List Entry :=
  [.extra (claimed "fleet/edge-1/reply" 1),
    .common (.enter ⟨"edge-1", "status", [], none⟩ (Nanos.ofMillis 50)),
    .common (.enter ⟨"edge-2", "status", [], none⟩ (Nanos.ofMillis 50)),
    .extra (claimed "fleet/edge-2/reply" 1), .extra (claimed "fleet/edge-1/reply" 2),
    .extra (claimed "fleet/edge-1/reply" 0), .common (.pass (Nanos.ofMillis 20)),
    .common (.message (claimed "fleet/edge-1/reply" 1)),
    .extra (claimed "fleet/edge-1/reply" 1), .common (.pass (Nanos.ofMillis 30)), .common .fire,
    .extra (claimed "fleet/edge-2/reply" 2)]

/-- Three of the six messages are counted, and nobody has noticed any of them. -/
theorem undisturbed_run_besieged :
    (start .standard 0).Strays besieged ∧
      (run .standard 0 (disturbed besieged)).correlator.outcome? 1 =
        some (.ok ⟨1, "fleet/edge-1/reply", "edge-1", [7], Nanos.ofMillis 20⟩) ∧
      (start .standard 0).periods 2 [] (disturbed besieged) = [⟨0, some (Nanos.ofMillis 50)⟩] ∧
      (run .standard 0 (disturbed besieged)).correlator.tally.discarded = 3 := by
  have hstrays : (start .standard 0).Strays besieged := by decide +kernel
  obtain ⟨-, hsame, hcount⟩ := undisturbed_run .standard 0 besieged hstrays
  refine ⟨hstrays, (hsame 1).1.trans ?_, (hsame 2).2.trans ?_, hcount.trans ?_⟩
  · decide +kernel
  · decide +kernel
  · decide +kernel

end Desk

end Flotilla
