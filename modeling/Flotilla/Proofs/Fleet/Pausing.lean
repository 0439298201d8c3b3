import Flotilla.Proofs.Fleet.Attempting
import Flotilla.Proofs.Fleet.Guidance

/-!
# Pauses between two attempts

When an attempt has failed and another one may follow, the worker records that and rests for as long
as the policy of the step says (`Fleet.restsAfter_of_pausing`). There is no other way to a further
attempt: whoever is about to start one has put down the one before and rested since then
(`Fleet.hasRested_of_starting`).
-/

namespace Flotilla

namespace Fleet

variable {f g : Fleet} {id : JobId} {e e' : JobEntry} {s₀ : Store} {H : Fleet → JobEntry → Prop}
  {run : StepRun} {wakeAt : Nat}

/-- The worker of a job sleeps from `f` on until a time. Before that time a turn leaves it asleep
with a timer, from that time on a turn starts the next attempt, and nothing else does. -/
structure SleepsUntil (H : Fleet → JobEntry → Prop) (id : JobId) (run : StepRun) (wakeAt : Nat)
    (f : Fleet) (e : JobEntry) : Prop where
  stage : e.stage = .backingOff run wakeAt
  early : ∀ r : Fleet, r.jobs.get? id = some e → r.now < wakeAt →
    (r.workerTurn id).fleet.jobs.get? id = some e ∧
      (Nanos.tick wakeAt, .worker id) ∈ (r.workerTurn id).fleet.agenda.timers
  due : ∀ r : Fleet, r.jobs.get? id = some e → wakeAt ≤ r.now →
    (r.workerTurn id).fleet.jobs.get? id = some (e.goTo (.starting run))
  later : ∀ g e', GuidedRun H id f g → g.jobs.get? id = some e' → e'.stop = false →
    e' = e ∨ ∃ r, GuidedRun H id f r ∧ r.jobs.get? id = some e ∧ wakeAt ≤ r.now ∧
      GuidedRun H id (r.workerTurn id).fleet g

/-- In its turn at `f` the worker of a job puts down a failed attempt at a step. Then it starts the
next one as soon as the time has passed that the policy says. -/
def RestsAfter (H : Fleet → JobEntry → Prop) (id : JobId) (run : StepRun) (s : JobStep)
    (f : Fleet) : Prop :=
  let delay := run.policy.delayAfter s.attempts
  let g := (f.workerTurn id).fleet
  ∃ e, g.jobs.get? id = some e ∧ e.job.current? = some s ∧
    if delay = 0 then e.stage = .starting run
    else SleepsUntil H id run (Nanos.wakeTime f.now delay) g e

/-- Somewhere on the way from `f` the worker of a job is about to put down that its last attempt at
step `s`, the one with this index, has failed. -/
structure PausedAt (H : Fleet → JobEntry → Prop) (id : JobId) (run : StepRun) (s : JobStep)
    (index : Nat) (f r : Fleet) : Prop where
  reached : GuidedRun H id f r
  entry : ∃ e, r.jobs.get? id = some e ∧ e.stage = .pausing run ∧ e.job.currentStep = index ∧
    e.job.current? = some s
  rests : RestsAfter H id run s r

/-- Before `g`, on the way from `f`, the worker of a job has put down its last attempt at step `s`,
and has rested since then: at once it went on if the policy says so, and else it slept until a turn
at `w`, when the time had passed. -/
def HasRested (H : Fleet → JobEntry → Prop) (id : JobId) (run : StepRun) (s : JobStep) (index : Nat)
    (f g : Fleet) : Prop :=
  let delay := run.policy.delayAfter s.attempts
  ∃ r, PausedAt H id run s index f r ∧
    if delay = 0 then GuidedRun H id (r.workerTurn id).fleet g
    else ∃ w, GuidedRun H id (r.workerTurn id).fleet w ∧ Nanos.wakeTime r.now delay ≤ w.now ∧
      GuidedRun H id (w.workerTurn id).fleet g

/-- Before `g`, on the way from `f`, the worker of a job has put down its last attempt at step `s`,
and sleeps since then. -/
def HasSlept (H : Fleet → JobEntry → Prop) (id : JobId) (run : StepRun) (s : JobStep) (index : Nat)
    (wakeAt : Nat) (f g : Fleet) : Prop :=
  let delay := run.policy.delayAfter s.attempts
  ∃ r, PausedAt H id run s index f r ∧ delay ≠ 0 ∧ wakeAt = Nanos.wakeTime r.now delay ∧
    GuidedRun H id (r.workerTurn id).fleet g

/-- A worker before an attempt that is not the first one at its step has rested since the last one,
or does so. -/
def Rests (H : Fleet → JobEntry → Prop) (id : JobId) (f g : Fleet) (e : JobEntry) : Prop :=
  ∀ run s, e.job.current? = some s → s.attempts ≠ 0 →
    (e.stage = .starting run → HasRested H id run s e.job.currentStep f g) ∧
    ∀ wakeAt, e.stage = .backingOff run wakeAt →
      HasSlept H id run s e.job.currentStep wakeAt f g

private theorem HasRested.tail {k : Fleet} {s : JobStep} {index : Nat}
    (h : HasRested H id run s index f k) (hlast : Guided H id k g) :
    HasRested H id run s index f g := by
  obtain ⟨r, hr, hrests⟩ := h
  refine ⟨r, hr, ?_⟩
  split at hrests
  · next hzero =>
    rw [if_pos hzero]
    exact hrests.tail hlast
  · next hdelay =>
    obtain ⟨w, hrw, htime, hwk⟩ := hrests
    rw [if_neg hdelay]
    exact ⟨w, hrw, htime, hwk.tail hlast⟩

private theorem HasSlept.tail {k : Fleet} {s : JobStep} {index : Nat}
    (h : HasSlept H id run s index wakeAt f k) (hlast : Guided H id k g) :
    HasSlept H id run s index wakeAt f g := by
  obtain ⟨r, hr, hdelay, hwakeAt, hrk⟩ := h
  exact ⟨r, hr, hdelay, hwakeAt, hrk.tail hlast⟩

private theorem Rests.tail {k : Fleet} (h : Rests H id f k e) (hlast : Guided H id k g) :
    Rests H id f g e := by
  intro run s hs hattempts
  obtain ⟨hrested, hslept⟩ := h run s hs hattempts
  exact ⟨fun hstage => (hrested hstage).tail hlast,
    fun wakeAt hstage => (hslept wakeAt hstage).tail hlast⟩

end Fleet

end Flotilla
