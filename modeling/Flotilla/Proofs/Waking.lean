import Flotilla.Proofs.Deadlines
import Flotilla.Supervisor.Watch

/-!
# Nothing is slept through

The task of a supervisor looks at the deadlines, lets them go, and only then lies down; deadlines
are put in and called off meanwhile, and whoever puts one in calls the task afterwards. A vigil
takes these strokes one at a time, in any order. At each moment after its look the task has been
called, or is about to be, or knows of a time by which every deadline in the queue is still to come
(`Vigil.Watchful`). So a task that sleeps on without a call does not sleep past any of them
(`Vigil.never_oversleeps`).

Undivided strokes are what a `Watch` does: it is a vigil seen from far away (`Vigil.view`).
-/

namespace Flotilla

/-- Where the task of a supervisor is in its round. -/
inductive Place where
  /-- Before its next look at the deadlines. -/
  | looking
  /-- It has looked and is about to lie down. -/
  | leaving
  /-- It sleeps; tells whether a call has reached it there. -/
  | sleeping (reached : Bool)
  deriving DecidableEq, Repr

/-- The task will look at the deadlines without being called once more. -/
def Place.stirred : Place → Bool
  | looking => true
  | leaving => false
  | sleeping reached => reached

/-- A watch whose task takes one stroke at a time. Its supervisor is `called` while a call waits for
the task to lie down, and `asleepUntil` is what the task saw at its last look. -/
structure Vigil (α : Type) extends Watch α where
  place : Place
  /-- How many deadlines have been put in without the call that goes with it, so far. -/
  owed : Nat
  deriving DecidableEq, Repr

namespace Vigil

variable {α : Type}

/-- What the task can do. -/
inductive Turn where
  /-- Fire what is due and see what comes next. -/
  | look
  /-- Lie down, if no call waits. -/
  | lie
  /-- Get up because of a call. -/
  | heed
  /-- Get up because the time has come. -/
  | rise
  deriving DecidableEq, Repr

/-- What can happen to a vigil. -/
inductive Stroke (α : Type) where
  /-- A deadline is put in. -/
  | enter (key : CorrelationKey) (deadline : Nat) (tell : α)
  /-- Somebody who has put one in calls the task. -/
  | call
  | cancel (key : CorrelationKey)
  /-- Time passes. -/
  | pass (span : Nat)
  /-- The task does something. -/
  | turn (turn : Turn)
  deriving Repr

/-- The vigil of a supervisor that is made at the time `now`. -/
def start (granularity now : Nat) : Vigil α where
  now
  supervisor := { Supervisor.new granularity now with called := false }
  fired := []
  place := .looking
  owed := 0

/-- A call reaches the task where it sleeps. Otherwise it waits; there is room for one. -/
def call (v : Vigil α) : Vigil α :=
  if v.place = .sleeping false then { v with place := .sleeping true }
  else { v with supervisor := { v.supervisor with called := true } }

/-- The task is awake, and a call that has reached it unheeded waits for it again. -/
def getUp (v : Vigil α) : Vigil α :=
  { v with
    place := .looking
    supervisor := { v.supervisor with called := v.supervisor.called || v.place.stirred } }

/-- The task looks, and heeds no call yet. -/
def look (v : Vigil α) : Vigil α :=
  let (fired, supervisor) := v.supervisor.poll v.now
  { v with
    supervisor := { supervisor with called := v.supervisor.called }
    fired := v.fired ++ fired.map fun e => (v.now, e)
    place := .leaving }

/-- What the task does in its turn; nothing when that is not to be done where it is. -/
def turn (v : Vigil α) : Turn → Vigil α
  | .look => if v.place = .looking then v.look else v
  | .lie =>
    if v.place = .leaving ∧ v.supervisor.called = false then { v with place := .sleeping false }
    else v
  | .heed =>
    if v.place = .sleeping true then { v with place := .looking }
    else if v.place = .leaving ∧ v.supervisor.called = true then
      { v with place := .looking, supervisor := { v.supervisor with called := false } }
    else v
  | .rise =>
    if v.place ≠ .looking ∧ v.supervisor.asleepUntil.any (· ≤ v.now) = true then v.getUp else v

/-- What happens by a stroke. -/
def stroke (v : Vigil α) : Stroke α → Vigil α
  | .enter key deadline tell =>
    match v.supervisor.scheduleAt key deadline tell with
    | .ok supervisor =>
      { v with
        supervisor := { supervisor with called := v.supervisor.called }
        owed := v.owed + 1 }
    | .error _ => v
  | .call => if v.owed = 0 then v else { v with owed := v.owed - 1 }.call
  | .cancel key => { v with supervisor := (v.supervisor.cancel key).2 }
  | .pass span => { v with now := v.now + span }
  | .turn turn => v.turn turn

def run (granularity now : Nat) (strokes : List (Stroke α)) : Vigil α :=
  strokes.foldl stroke (start granularity now)

/-- The task sleeps, and no call waits for it or is still to come. -/
structure Idle (v : Vigil α) : Prop where
  place : v.place = .sleeping false
  uncalled : v.supervisor.called = false
  unowed : v.owed = 0

/-- The time at which the task wakes has not come either. -/
structure AtRest (v : Vigil α) : Prop extends v.Idle where
  early : ∀ wake, v.supervisor.asleepUntil = some wake → v.now < wake

/-- Every deadline is still to come at the time until which the task would sleep. -/
def Covers (s : Supervisor α) : Prop :=
  ∀ key deadline, s.queue.deadline? key = some deadline →
    ∃ wake, s.asleepUntil = some wake ∧ wake ≤ deadline

/-- After its look, the task has been called, or will be, or has seen enough. -/
structure Watchful (v : Vigil α) : Prop where
  wellFormed : v.supervisor.queue.WellFormed
  covered : v.place.stirred = true ∨ v.supervisor.called = true ∨ 0 < v.owed ∨
    Covers v.supervisor
  /-- A call does not wait while the task sleeps on. -/
  reached : v.place = .sleeping false → v.supervisor.called = false

variable {v : Vigil α}

private theorem Covers.cancel {s : Supervisor α} (h : Covers s) (key : CorrelationKey) :
    Covers (s.cancel key).2 := by
  intro x deadline hx
  have hx' : (s.queue.cancel key).2.deadline? x = some deadline := hx
  rw [DeadlineQueue.deadline?_cancel] at hx'
  split at hx'
  · cases hx'
  · exact h x deadline hx'

/-- What the task sees at its look covers what it leaves in the queue. -/
theorem covers_poll {s : Supervisor α} (h : s.queue.WellFormed) (now : Nat) :
    Covers (s.poll now).2 := by
  intro key deadline hkey
  have hleft : (s.queue.fire now).2.WellFormed := (h.fires now).wellFormed
  change (s.queue.fire now).2.deadline? key = some deadline at hkey
  change ∃ wake, (s.queue.fire now).2.next? = some wake ∧ wake ≤ deadline
  cases hnext : (s.queue.fire now).2.next? with
  | none => cases (hleft.next?_eq_none_iff_forall.1 hnext key).symm.trans hkey
  | some first => exact ⟨first, rfl, (hleft.next?_eq_some hnext).2 key deadline hkey⟩

/-- A task that is about to look for the first time has missed nothing. -/
theorem Watchful.start (granularity now : Nat) :
    (start granularity now : Vigil α).Watchful where
  wellFormed := DeadlineQueue.wellFormed_empty
  covered := Or.inl rfl
  reached := nofun

/-- A task that has been called has missed nothing. -/
theorem watchful_call (h : v.supervisor.queue.WellFormed) : v.call.Watchful := by
  unfold call
  split
  · exact ⟨h, Or.inl rfl, nofun⟩
  · next hplace => exact ⟨h, Or.inr (Or.inl rfl), fun k => absurd k hplace⟩

/-- Whatever the task does next, it misses nothing. -/
theorem Watchful.turn (h : v.Watchful) (t : Turn) : (v.turn t).Watchful := by
  cases t with
  | look =>
    dsimp only [Vigil.turn]
    split
    · exact ⟨(h.wellFormed.fires v.now).wellFormed,
        Or.inr (Or.inr (Or.inr (covers_poll h.wellFormed v.now))), nofun⟩
    · exact h
  | lie =>
    dsimp only [Vigil.turn]
    split
    · next hlie =>
      have hcovered := h.covered
      rw [hlie.1] at hcovered
      exact ⟨h.wellFormed, hcovered, fun _ => hlie.2⟩
    · exact h
  | heed =>
    dsimp only [Vigil.turn]
    split
    · exact ⟨h.wellFormed, Or.inl rfl, nofun⟩
    · split
      · exact ⟨h.wellFormed, Or.inl rfl, nofun⟩
      · exact h
  | rise =>
    dsimp only [Vigil.turn]
    split
    · exact ⟨h.wellFormed, Or.inl rfl, nofun⟩
    · exact h

/-- Whatever happens next, the task misses nothing. -/
theorem Watchful.stroke (h : v.Watchful) (a : Stroke α) : (v.stroke a).Watchful := by
  cases a with
  | enter key deadline tell =>
    dsimp only [Vigil.stroke, Supervisor.scheduleAt]
    cases hschedule : v.supervisor.queue.schedule key deadline tell with
    | error fault => exact h
    | ok queue =>
      exact ⟨h.wellFormed.schedule hschedule, Or.inr (Or.inr (Or.inl (Nat.succ_pos _))), h.reached⟩
  | call =>
    dsimp only [Vigil.stroke]
    split
    · exact h
    · exact watchful_call h.wellFormed
  | cancel key =>
    refine ⟨h.wellFormed.cancel key, ?_, h.reached⟩
    exact h.covered.imp_right (Or.imp_right (Or.imp_right (Covers.cancel · key)))
  | pass span => exact ⟨h.wellFormed, h.covered, h.reached⟩
  | turn t => exact h.turn t

/-- In no run does the task miss anything. -/
theorem watchful_run (granularity now : Nat) (strokes : List (Stroke α)) :
    (run granularity now strokes).Watchful :=
  List.foldlRecOn strokes Vigil.stroke (.start granularity now) fun _ h a _ => h.stroke a

/-- The task gets up by itself. -/
def roused (v : Vigil α) : Bool :=
  v.place.stirred || v.supervisor.called || v.supervisor.asleepUntil.any (· ≤ v.now)

/-- Turns that bring the task to rest: it may have been called both while it lay and while it was
up, and then looks twice. -/
def round : List Turn := [.heed, .rise, .look, .heed, .look, .lie]

/-- The watch that is seen when the strokes are too quick for the eye: a call that waits and one
that has come through look the same. -/
def view (v : Vigil α) : Watch α :=
  { v.toWatch with
    supervisor := { v.supervisor with called := v.supervisor.called || v.place.stirred } }

/-- The task after its look, at rest. -/
def rested (v : Vigil α) : Vigil α :=
  { v with
    supervisor := (v.supervisor.poll v.now).2
    fired := v.fired ++ (v.supervisor.poll v.now).1.map fun e => (v.now, e)
    place := .sleeping false }

/-- A second look at the same moment shows nothing new. -/
theorem poll_poll (s : Supervisor α) (now : Nat) (called : Bool) :
    Supervisor.poll { (s.poll now).2 with called } now = ([], (s.poll now).2) := by
  have hfire := DeadlineQueue.fire_of_lt fun _ => s.queue.lt_next?_fire now
  dsimp only [Supervisor.poll]
  rw [hfire]

private theorem turn_look (h : v.place = .looking) : v.turn .look = v.look := if_pos h

private theorem turn_look_leaving (h : v.place = .leaving) : v.turn .look = v :=
  if_neg (h ▸ nofun)

private theorem turn_lie (h : v.place = .leaving) (hcalled : v.supervisor.called = false) :
    v.turn .lie = { v with place := .sleeping false } := if_pos ⟨h, hcalled⟩

private theorem turn_heed_leaving (h : v.place = .leaving) : v.turn .heed =
    if v.supervisor.called then
      { v with place := .looking, supervisor := { v.supervisor with called := false } }
    else v := by
  rw [turn, h, if_neg nofun]
  simp only [true_and]

private theorem look_heed_look_lie (hplace : v.place = .looking) :
    [Turn.look, .heed, .look, .lie].foldl turn v = v.rested := by
  change (((v.turn .look).turn .heed).turn .look).turn .lie = _
  rw [turn_look hplace, turn_heed_leaving rfl]
  change ((if v.supervisor.called = true then _ else v.look).turn .look).turn .lie = _
  cases hcalled : v.supervisor.called with
  | false =>
    rw [if_neg nofun, turn_look_leaving rfl, turn_lie (v := v.look) rfl hcalled, look, hcalled]
    rfl
  | true =>
    -- nothing has become due since the first look
    rw [if_pos rfl, turn_look rfl, turn_lie rfl rfl, look]
    dsimp only [look]
    rw [poll_poll]
    simp only [List.map_nil, List.append_nil]
    rfl

/-- Whoever has been roused is about to look. -/
theorem heed_rise (h : v.Watchful) (hroused : v.roused = true) : ∃ called,
    (v.turn .heed).turn .rise =
      { v with place := .looking, supervisor := { v.supervisor with called } } := by
  have hreached := h.reached
  obtain ⟨w, place, owed⟩ := v
  cases place with
  | looking => exact ⟨w.supervisor.called, rfl⟩
  | leaving =>
    rw [turn_heed_leaving rfl]
    dsimp only at hroused ⊢
    cases hcalled : w.supervisor.called with
    | true => exact ⟨false, rfl⟩
    | false =>
      rw [roused, hcalled] at hroused
      exact ⟨w.supervisor.called || false, if_pos ⟨nofun, hroused⟩⟩
  | sleeping reached =>
    cases reached with
    | true => exact ⟨w.supervisor.called, rfl⟩
    | false =>
      rw [roused, hreached rfl] at hroused
      exact ⟨w.supervisor.called || false, if_pos ⟨nofun, hroused⟩⟩

private theorem heed_rise_of_not_roused (h : v.roused = false) : (v.turn .heed).turn .rise = v := by
  obtain ⟨w, place, owed⟩ := v
  simp only [roused, Bool.or_eq_false_iff] at h
  obtain ⟨⟨hstirred, hcalled⟩, hearly⟩ := h
  have hheed : turn ⟨w, place, owed⟩ .heed = ⟨w, place, owed⟩ := by
    have hplace : place ≠ .sleeping true := by
      rintro rfl
      cases hstirred
    exact (if_neg hplace).trans (if_neg fun k => Bool.false_ne_true (hcalled.symm.trans k.2))
  rw [hheed]
  exact if_neg fun k => Bool.false_ne_true (hearly.symm.trans k.2)

/-- Left to itself, the task does what it does in a watch. -/
theorem round_eq (h : v.Watchful) :
    round.foldl turn v = if v.roused then v.rested else { v with place := .sleeping false } := by
  change [Turn.look, .heed, .look, .lie].foldl turn ((v.turn .heed).turn .rise) = _
  cases hroused : v.roused with
  | false =>
    rw [heed_rise_of_not_roused hroused, if_neg nofun]
    simp only [roused, Bool.or_eq_false_iff] at hroused
    obtain ⟨⟨hstirred, hcalled⟩, -⟩ := hroused
    change (((v.turn .look).turn .heed).turn .look).turn .lie = _
    cases hplace : v.place with
    | looking =>
      rw [hplace] at hstirred
      cases hstirred
    | leaving =>
      rw [turn_look_leaving hplace, turn_heed_leaving hplace, hcalled, if_neg nofun,
        turn_look_leaving hplace, turn_lie hplace hcalled]
    | sleeping reached =>
      rw [hplace] at hstirred
      cases hstirred
      obtain ⟨w, place, owed⟩ := v
      cases hplace
      rfl
  | true =>
    obtain ⟨called, hup⟩ := heed_rise h hroused
    rw [hup, look_heed_look_lie rfl, if_pos rfl]
    rfl

/-- What a task knows that looks again only when it is called. -/
theorem Watchful.covers (h : v.Watchful) (hstirred : v.place.stirred = false)
    (hcalled : v.supervisor.called = false) (howed : v.owed = 0) : Covers v.supervisor := by
  rcases h.covered with hcovered | hcovered | hcovered | hcovered
  · exact absurd (hstirred.symm.trans hcovered) Bool.false_ne_true
  · exact absurd (hcalled.symm.trans hcovered) Bool.false_ne_true
  · exact absurd howed (Nat.ne_of_gt hcovered)
  · exact hcovered

private theorem Idle.covers (hidle : v.Idle) (h : v.Watchful) : Covers v.supervisor :=
  h.covers (congrArg Place.stirred hidle.place) hidle.uncalled hidle.unowed

/-- There is nothing to sleep for, or the task wakes before the first deadline. -/
theorem Covers.isEmpty_or_le {s : Supervisor α} (h : Covers s) (hq : s.queue.WellFormed) :
    s.queue.isEmpty = true ∨
      ∃ wake first, s.asleepUntil = some wake ∧ s.queue.next? = some first ∧ wake ≤ first := by
  cases hnext : s.queue.next? with
  | none => exact Or.inl (hq.next?_eq_none_iff.1 hnext)
  | some first =>
    obtain ⟨key, hkey⟩ := (hq.next?_eq_some hnext).1
    obtain ⟨wake, hwake, hle⟩ := h key first hkey
    exact Or.inr ⟨wake, first, hwake, rfl, hle⟩

/-- Nothing is due while the task rests. -/
theorem AtRest.lt_deadline (hrest : v.AtRest) (h : v.Watchful) {key : CorrelationKey}
    {deadline : Nat} (hkey : v.supervisor.queue.deadline? key = some deadline) :
    v.now < deadline := by
  obtain ⟨wake, hwake, hle⟩ := hrest.toIdle.covers h key deadline hkey
  exact Nat.lt_of_lt_of_le (hrest.early wake hwake) hle

private theorem atRest_round (h : v.Watchful) (howed : v.owed = 0) :
    (round.foldl turn v).AtRest := by
  rw [round_eq h]
  cases hroused : v.roused with
  | true => exact ⟨⟨rfl, rfl, howed⟩, fun _ => v.supervisor.queue.lt_next?_fire v.now⟩
  | false =>
    simp only [roused, Bool.or_eq_false_iff] at hroused
    obtain ⟨⟨-, hcalled⟩, hearly⟩ := hroused
    refine ⟨⟨rfl, hcalled, howed⟩, fun wake hwake => ?_⟩
    change v.supervisor.asleepUntil = some wake at hwake
    rw [hwake, Option.any_some, decide_eq_false_iff_not, Nat.not_le] at hearly
    exact hearly

/-- What the task does takes no time. -/
theorem now_turn (v : Vigil α) (t : Turn) : (v.turn t).now = v.now := by
  cases t <;> dsimp only [turn] <;> (try split) <;> (try split) <;> rfl

/-- What has been told stays told. -/
theorem fired_turn (v : Vigil α) (t : Turn) : v.fired ⊆ (v.turn t).fired := by
  cases t <;> dsimp only [turn] <;> (try split) <;> (try split) <;>
    first | exact List.Subset.refl _ | exact List.subset_append_left _ _

/-- A deadline stays in the queue until the task tells of it. -/
theorem kept_or_told (h : v.Watchful) (t : Turn) {key : CorrelationKey} {deadline : Nat} {tell : α}
    (hkey : v.supervisor.queue.entries.get? key = some (deadline, tell)) :
    (v.turn t).supervisor.queue.entries.get? key = some (deadline, tell) ∨
      (v.now, key, tell) ∈ (v.turn t).fired := by
  cases t with
  | look =>
    dsimp only [turn]
    split
    · have hfires := h.wellFormed.fires v.now
      by_cases hdue : deadline ≤ v.now
      · have hfired := (hfires.mem_fired_iff key tell).2 ⟨deadline, hkey, hdue⟩
        exact Or.inr (List.mem_append_right _ (List.mem_map.2 ⟨_, hfired, rfl⟩))
      · refine Or.inl ((hfires.get?_left key).trans ?_)
        rw [hkey, Option.filter_some, if_pos (decide_eq_true (Nat.lt_of_not_le hdue))]
    · exact Or.inl hkey
  | lie =>
    dsimp only [turn]
    split <;> exact Or.inl hkey
  | heed =>
    dsimp only [turn]
    split
    · exact Or.inl hkey
    · split <;> exact Or.inl hkey
  | rise =>
    dsimp only [turn]
    split <;> exact Or.inl hkey

/-- Whatever the task does until it rests, it tells of everything that is due. -/
theorem told_of_atRest {turns : List Turn} (h : v.Watchful) (hrest : (turns.foldl turn v).AtRest)
    {key : CorrelationKey} {deadline : Nat} {tell : α}
    (hkey : v.supervisor.queue.entries.get? key = some (deadline, tell)) (hdue : deadline ≤ v.now) :
    (v.now, key, tell) ∈ (turns.foldl turn v).fired := by
  induction turns generalizing v with
  | nil =>
    have hdeadline : v.supervisor.queue.deadline? key = some deadline :=
      congrArg (Option.map Prod.fst) hkey
    exact absurd hdue (Nat.not_le.2 (hrest.lt_deadline h hdeadline))
  | cons t turns ih =>
    rcases kept_or_told h t hkey with hkept | htold
    · rw [← v.now_turn t]
      exact ih (h.turn t) hrest hkept ((v.now_turn t).symm ▸ hdue)
    · exact List.foldlRecOn turns turn htold fun w hw t _ => w.fired_turn t hw

end Vigil

namespace Watch

open Vigil (Stroke)

variable {α : Type}

/-- What can be done with a watch. -/
inductive Act (α : Type) where
  | schedule (key : CorrelationKey) (deadline : Nat) (tell : α)
  | cancel (key : CorrelationKey)
  | pass (span : Nat)
  /-- The task runs if there is a reason. -/
  | settle
  deriving Repr

def act (w : Watch α) : Act α → Watch α
  | .schedule key deadline tell =>
    match w.supervisor.scheduleAt key deadline tell with
    | .ok supervisor => { w with supervisor }
    | .error _ => w
  | .cancel key => { w with supervisor := (w.supervisor.cancel key).2 }
  | .pass span => { w with now := w.now + span }
  | .settle => w.settle

/-- The strokes behind an act. -/
def Act.strokes : Act α → List (Stroke α)
  | schedule key deadline tell => [.enter key deadline tell, .call]
  | cancel key => [.cancel key]
  | pass span => [.pass span]
  | settle => Vigil.round.map .turn

end Watch

namespace Vigil

variable {α : Type} {v : Vigil α}

/-- From afar, a vigil starts as a watch does. -/
theorem view_start (granularity now : Nat) :
    (start granularity now : Vigil α).view = ⟨now, .new granularity now, []⟩ := rfl

private theorem view_call (v : Vigil α) :
    v.call.view = { v.view with supervisor := { v.view.supervisor with called := true } } := by
  unfold call
  split
  · dsimp only [view, Place.stirred]
    rw [Bool.or_true]
  · rfl

private theorem owed_call (v : Vigil α) : v.call.owed = v.owed := by
  unfold call
  split <;> rfl

/-- Putting a deadline in and calling the task are the two halves of scheduling it. -/
theorem view_enter_call (howed : v.owed = 0) (key : CorrelationKey) (deadline : Nat) (tell : α) :
    ((v.stroke (.enter key deadline tell)).stroke .call).view =
        v.view.act (.schedule key deadline tell) ∧
      ((v.stroke (.enter key deadline tell)).stroke .call).owed = 0 := by
  cases hschedule : v.supervisor.queue.schedule key deadline tell with
  | error fault =>
    have henter : v.stroke (.enter key deadline tell) = v := by
      simp only [stroke, Supervisor.scheduleAt, hschedule, Except.map]
    have hact : v.view.act (.schedule key deadline tell) = v.view := by
      simp only [Watch.act, Supervisor.scheduleAt, view, hschedule, Except.map]
    have hcall : v.stroke .call = v := if_pos howed
    rw [henter, hcall, hact]
    exact ⟨rfl, howed⟩
  | ok queue =>
    have henter : v.stroke (.enter key deadline tell) =
        { v with supervisor := { v.supervisor with queue }, owed := v.owed + 1 } := by
      simp only [stroke, Supervisor.scheduleAt, hschedule, Except.map]
    have hact : v.view.act (.schedule key deadline tell) =
        { v.view with supervisor := { v.view.supervisor with queue, called := true } } := by
      simp only [Watch.act, Supervisor.scheduleAt, view, hschedule, Except.map]
    have hcall (w : Vigil α) (h : w.owed = v.owed + 1) :
        w.stroke .call = { w with owed := v.owed }.call := by
      rw [stroke, h, if_neg (Nat.succ_ne_zero v.owed), Nat.add_sub_cancel]
    rw [henter, hact, hcall _ rfl, view_call, owed_call]
    exact ⟨rfl, howed⟩

/-- From afar, a round of the task is what a watch does when it settles. -/
theorem view_round (h : v.Watchful) : (round.foldl turn v).view = v.view.settle := by
  rw [round_eq h, Watch.settle]
  have hcalled : (v.view.supervisor.called || v.view.supervisor.asleepUntil.any (· ≤ v.view.now)) =
      v.roused := by
    rw [roused, Bool.or_comm v.place.stirred]
    rfl
  rw [hcalled]
  cases hroused : v.roused with
  | true => rfl
  | false =>
    simp only [roused, Bool.or_eq_false_iff] at hroused
    rw [if_neg nofun, if_neg nofun, view, view, hroused.1.1]
    rfl

/-- From afar, the strokes of an act are that act, and nobody is left who has to call. -/
theorem view_strokes (h : v.Watchful) (howed : v.owed = 0) (a : Watch.Act α) :
    (a.strokes.foldl stroke v).view = v.view.act a ∧ (a.strokes.foldl stroke v).owed = 0 := by
  cases a with
  | schedule key deadline tell => exact view_enter_call howed key deadline tell
  | cancel key => exact ⟨rfl, howed⟩
  | pass span => exact ⟨rfl, howed⟩
  | settle =>
    have hround : (Watch.Act.settle : Watch.Act α).strokes.foldl stroke v = round.foldl turn v :=
      List.foldl_map
    rw [hround]
    exact ⟨view_round h, (atRest_round h howed).unowed⟩

private theorem watchful_strokes (h : v.Watchful) (strokes : List (Stroke α)) :
    (strokes.foldl stroke v).Watchful :=
  List.foldlRecOn strokes stroke h fun _ hw a _ => hw.stroke a

/-- A run of a watch is one of a vigil. -/
theorem view_acts (h : v.Watchful) (howed : v.owed = 0) (acts : List (Watch.Act α)) :
    ((acts.flatMap Watch.Act.strokes).foldl stroke v).view = acts.foldl Watch.act v.view ∧
      ((acts.flatMap Watch.Act.strokes).foldl stroke v).owed = 0 := by
  induction acts generalizing v with
  | nil => exact ⟨rfl, howed⟩
  | cons a acts ih =>
    obtain ⟨hview, howed'⟩ := view_strokes h howed a
    rw [List.flatMap_cons, List.foldl_append, List.foldl_cons, ← hview]
    exact ih (watchful_strokes h a.strokes) howed'

end Vigil

/-- The same law for a watch: between its acts, a task that has not been called knows a time by
which all deadlines are still to come. -/
theorem Watch.isEmpty_or_asleepUntil_le {α : Type} (granularity now : Nat) (acts : List (Act α))
    (h : (acts.foldl act ⟨now, .new granularity now, []⟩).supervisor.called = false) :
    (acts.foldl act ⟨now, .new granularity now, []⟩).supervisor.queue.isEmpty = true ∨
      ∃ wake first,
        (acts.foldl act ⟨now, .new granularity now, []⟩).supervisor.asleepUntil = some wake ∧
        (acts.foldl act ⟨now, .new granularity now, []⟩).supervisor.queue.next? = some first ∧
        wake ≤ first := by
  have hstart : (Vigil.start granularity now : Vigil α).Watchful := .start granularity now
  obtain ⟨hview, howed⟩ := Vigil.view_acts hstart rfl acts
  have hwatchful := Vigil.watchful_strokes hstart (acts.flatMap Act.strokes)
  rw [Vigil.view_start] at hview
  rw [← hview] at h ⊢
  obtain ⟨hcalled, hstirred⟩ := Bool.or_eq_false_iff.1 h
  exact (hwatchful.covers hstirred hcalled howed).isEmpty_or_le hwatchful.wellFormed

namespace Vigil

variable {α : Type}

/-- In every state that is reached when deadlines are put in and called off, time passes and the
task goes on, in any order: if the task sleeps and nothing calls it, then there are no deadlines or
it wakes before the first of them. So nothing is due while it rests. Whatever has become due is told
of before the task rests again, and left to itself it comes to rest.

Strokes that are not torn apart are what `Supervisor.scheduleAt`, `Supervisor.cancel` and
`Watch.settle` do, and the same law holds of these. -/
theorem never_oversleeps (granularity now : Nat) (strokes : List (Stroke α)) :
    ((run granularity now strokes).Idle →
      (run granularity now strokes).supervisor.queue.isEmpty = true ∨
        ∃ wake first, (run granularity now strokes).supervisor.asleepUntil = some wake ∧
          (run granularity now strokes).supervisor.queue.next? = some first ∧ wake ≤ first) ∧
    ((run granularity now strokes).AtRest → ∀ key deadline,
      (run granularity now strokes).supervisor.queue.deadline? key = some deadline →
      (run granularity now strokes).now < deadline) ∧
    (∀ (turns : List Turn) key deadline tell,
      (run granularity now strokes).supervisor.queue.entries.get? key = some (deadline, tell) →
      deadline ≤ (run granularity now strokes).now →
      (turns.foldl turn (run granularity now strokes)).AtRest →
      ((run granularity now strokes).now, key, tell) ∈
        (turns.foldl turn (run granularity now strokes)).fired) ∧
    ((run granularity now strokes).owed = 0 →
      (round.foldl turn (run granularity now strokes)).AtRest) ∧
    ((run granularity now strokes).owed = 0 → ∀ acts : List (Watch.Act α),
      ((acts.flatMap Watch.Act.strokes).foldl stroke (run granularity now strokes)).view =
        acts.foldl Watch.act (run granularity now strokes).view) ∧
    ∀ acts : List (Watch.Act α),
      (acts.foldl Watch.act ⟨now, .new granularity now, []⟩).supervisor.called = false →
        (acts.foldl Watch.act ⟨now, .new granularity now, []⟩).supervisor.queue.isEmpty = true ∨
          ∃ wake first,
            (acts.foldl Watch.act ⟨now, .new granularity now, []⟩).supervisor.asleepUntil =
              some wake ∧
            (acts.foldl Watch.act ⟨now, .new granularity now, []⟩).supervisor.queue.next? =
              some first ∧ wake ≤ first := by
  have h := watchful_run granularity now strokes
  exact ⟨fun hidle => (hidle.covers h).isEmpty_or_le h.wellFormed,
    fun hrest key deadline => hrest.lt_deadline h,
    fun turns key deadline tell hkey hdue hrest => told_of_atRest h hrest hkey hdue,
    atRest_round h, fun howed acts => (view_acts h howed acts).1,
    Watch.isEmpty_or_asleepUntil_le granularity now⟩

/-- While the task is about to sleep until the time 100, an earlier deadline is put in. It lies down
before the call comes, the call reaches it there, and it looks again. The first deadline is called
off, which it does not notice; then the time of the second one comes. -/
def surprised : List (Stroke Unit) :=
  [.enter 1 100 (), .call, .turn .look, .turn .heed, .turn .look, .enter 2 30 (), .turn .lie, .call,
    .turn .heed, .turn .look, .turn .lie, .cancel 1]

/-- The same without such surprises. -/
def undisturbed : List (Watch.Act Unit) :=
  [.schedule 1 100 (), .settle, .schedule 2 30 (), .settle, .cancel 1]

/-- A deadline is put in between the look and the lie, and fires when it is due. -/
theorem never_oversleeps_surprised :
    (∃ wake first, (run 0 0 surprised).supervisor.asleepUntil = some wake ∧
      (run 0 0 surprised).supervisor.queue.next? = some first ∧ wake ≤ first) ∧
    (run 0 0 surprised).now < 30 ∧
    (30, 2, ()) ∈ (round.foldl turn (run 0 0 (surprised ++ [.pass 30]))).fired ∧
    ∃ wake first,
      (undisturbed.foldl Watch.act ⟨0, .new 0 0, []⟩).supervisor.asleepUntil = some wake ∧
      (undisturbed.foldl Watch.act ⟨0, .new 0 0, []⟩).supervisor.queue.next? = some first ∧
      wake ≤ first := by
  have hidle : (run 0 0 surprised).Idle := ⟨by decide, by decide, by decide⟩
  have hrest : (run 0 0 surprised).AtRest := by
    refine ⟨hidle, fun wake h => ?_⟩
    have hwake : (run 0 0 surprised).supervisor.asleepUntil = some 30 := by decide
    cases hwake.symm.trans h
    decide
  obtain ⟨hlaw, hearly, -, -, -, hwatch⟩ := never_oversleeps 0 0 surprised
  obtain ⟨-, -, htold, hround, -, -⟩ := never_oversleeps 0 0 (surprised ++ [.pass 30])
  refine ⟨(hlaw hidle).resolve_left (by decide), hearly hrest 2 30 (by decide), ?_,
    (hwatch undisturbed (by decide)).resolve_left (by decide)⟩
  exact htold round 2 30 () (by decide) (by decide) (hround (by decide))

end Vigil

end Flotilla
