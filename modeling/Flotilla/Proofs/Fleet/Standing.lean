import Flotilla.Proofs.Fleet.Keeping

/-!
# How a job stands at each stage of its worker

The stage of a worker tells the state of its job and its phase (`Stage.Befits`). A job that is
underway is running, and from there it gets to a stop, to its normal end, or to the next thing to
do; where the state does not allow a move, no worker tries it.
-/

namespace Flotilla

/-- Whether a job in this state has come to an ordinary end. -/
def JobState.isOrdinaryEnd : JobState → Bool
  | .completed | .stepFailed => true
  | .created | .running | .stopping | .stopped => false

/-- How a job stands whose worker is about to record this event. -/
def JobEvent.Befits (state : JobState) (phase : Phase) : JobEvent → Prop
  | .start => state = .created ∧ (phase = .running ∨ phase = .stopRequested)
  | .allStepsCompleted | .stepExhausted | .fatalError => state = .running ∧ phase = .finished
  | .stopRequested => state = .running ∧ phase = .stopRequested
  | .stopSettled => state = .stopping ∧ phase = .stopRequested

/-- How a job stands whose worker is at this stage. -/
def Stage.Befits (state : JobState) (phase : Phase) : Stage → Prop
  | .queued => state = .created ∧ phase = .queued
  | .moving event .. | .resting event .. => event.Befits state phase
  | .choosing | .starting _ | .acting .. | .waiting .. | .succeeding _ | .pausing _
  | .backingOff .. => state = .running ∧ (phase = .running ∨ phase = .stopRequested)
  | .leaving result => (phase = .finished ∨ phase ≠ .queued ∧ state.isOrdinaryEnd = false) ∧
      (result.isOk = true → state.isTerminal = true)
  | .gone => phase = .finished

/-- The event of a move that ends a job in the ordinary way. -/
def JobEvent.IsClosing : JobEvent → Prop
  | .allStepsCompleted | .stepExhausted | .fatalError => True
  | .start | .stopRequested | .stopSettled => False

/-- A fault ends a job with a closing move. -/
theorem Fault.isClosing_ending (fault : Fault) : fault.ending.IsClosing := by
  rcases fault.ending_eq with h | h <;> rw [h] <;> trivial

/-- A move that befits the job is one that its state allows. -/
theorem JobEvent.Befits.next? {event : JobEvent} {state : JobState} {phase : Phase}
    (h : event.Befits state phase) : ∃ state', state.next? event = some state' := by
  cases event <;> obtain ⟨rfl, -⟩ := h <;> exact ⟨_, rfl⟩

/-- A job whose worker is about to record a move has not come to an ordinary end, and its worker has
a permit. -/
theorem JobEvent.Befits.underway {event : JobEvent} {state : JobState} {phase : Phase}
    (h : event.Befits state phase) : phase ≠ .queued ∧ state.isOrdinaryEnd = false := by
  cases event <;> obtain ⟨rfl, hphase⟩ := h <;> refine ⟨?_, rfl⟩ <;> rintro rfl <;>
    simp at hphase

/-- A job that runs and is asked to stop stands well at the same stage. -/
theorem Stage.Befits.asked {stage : Stage} {state : JobState} (h : stage.Befits state .running) :
    stage.Befits state .stopRequested := by
  cases stage with
  | moving event | resting event => cases event <;> simp_all [Befits, JobEvent.Befits]
  | _ => simp_all [Befits]

namespace JobEntry

/-- An entry whose stage, state and phase go together. -/
structure Standing (e : JobEntry) : Prop where
  befits : e.stage.Befits e.job.state e.phase
  snapshot : e.snapshot.state = e.job.state
  stop : e.stop = true → e.phase = .stopRequested ∨ e.phase = .finished
  archived : e.archived = true → e.phase = .finished

/-- A job that is neither before its start nor at its end. -/
structure Underway (e : JobEntry) : Prop where
  state : e.job.state = .running
  phase : e.phase = .running ∨ e.phase = .stopRequested
  snapshot : e.snapshot.state = .running
  stop : e.stop = true → e.phase = .stopRequested
  archived : e.archived = false

variable {e : JobEntry} {config : Config} {run : StepRun}

/-- A new job stands as its stage says. -/
theorem standing_new {job : Job} (h : job.state = .created) : (JobEntry.new job).Standing :=
  ⟨⟨h, rfl⟩, rfl, nofun, nofun⟩

/-- A job that may have been asked to stop stands as before. -/
theorem Standing.mayBeAsked {e' : JobEntry} (h : e.Standing) (ha : e.MayBeAsked e') :
    e'.Standing := by
  rcases ha with rfl | ⟨hphase, rfl⟩
  · exact h
  · have hbefits := h.befits
    rw [hphase] at hbefits
    refine ⟨hbefits.asked, h.snapshot, fun _ => Or.inl rfl, fun harchived => ?_⟩
    cases hphase.symm.trans (h.archived harchived)

/-- A job that has started and not ended is underway. -/
theorem Standing.underway (h : e.Standing)
    (hbefits : e.job.state = .running ∧ (e.phase = .running ∨ e.phase = .stopRequested)) :
    e.Underway := by
  obtain ⟨hstate, hphase⟩ := hbefits
  refine ⟨hstate, hphase, h.snapshot.trans hstate, fun hstop => ?_, ?_⟩
  · rcases h.stop hstop with hasked | hfinished
    · exact hasked
    · rcases hphase with hrunning | hasked
      · cases hrunning.symm.trans hfinished
      · exact hasked
  · by_contra harchived
    have hfinished := h.archived (Bool.of_not_eq_false harchived)
    rcases hphase with hrunning | hasked
    · cases hrunning.symm.trans hfinished
    · cases hasked.symm.trans hfinished

/-- A job that may have been asked to stop is underway as before. -/
theorem Underway.mayBeAsked {e' : JobEntry} (h : e.Underway) (ha : e.MayBeAsked e') :
    e'.Underway := by
  rcases ha with rfl | ⟨-, rfl⟩
  · exact h
  · exact ⟨h.state, Or.inr rfl, h.snapshot, fun _ => rfl, h.archived⟩

/-- A job that is underway may be at every stage at which its steps are run. -/
theorem Underway.goTo (h : e.Underway) {stage : Stage}
    (hstage : stage.Befits .running .running) (hasked : stage.Befits .running .stopRequested) :
    (e.goTo stage).Standing := by
  refine ⟨?_, h.snapshot.trans h.state.symm, fun hstop => Or.inl (h.stop hstop), fun ha => ?_⟩
  · change stage.Befits e.job.state e.phase
    rw [h.state]
    rcases h.phase with hphase | hphase <;> rw [hphase] <;> assumption
  · cases h.archived.symm.trans ha

/-- A job that begins to stop stands as its stage says. -/
theorem Underway.beginStop (h : e.Underway) (hphase : e.phase = .stopRequested) :
    (e.beginStop config).Standing := by
  refine ⟨⟨h.state, hphase⟩, h.snapshot.trans h.state.symm, fun _ => Or.inl hphase, fun ha => ?_⟩
  cases h.archived.symm.trans ha

/-- A job that comes to its end stands as its stage says. -/
theorem Underway.conclude (h : e.Underway) (event : JobEvent) (hevent : event.IsClosing)
    (failure : Option Fault) : (e.conclude config event failure).Standing := by
  rcases e.conclude_cases config event failure with ⟨hphase, hc⟩ | ⟨-, hc⟩ <;> rw [hc]
  · exact h.beginStop hphase
  · have hbefits : event.Befits .running .finished := by
      cases event <;> first | exact ⟨rfl, rfl⟩ | exact hevent.elim
    have hstate : (e.job.endedBy failure).state = .running := by
      cases failure <;> exact h.state
    refine ⟨?_, h.snapshot.trans hstate.symm, fun _ => Or.inr rfl, fun _ => rfl⟩
    change event.Befits (e.job.endedBy failure).state .finished
    rw [hstate]
    exact hbefits

/-- A job whose worker takes up a step stands as its stage says. -/
theorem Underway.choose (h : e.Underway) (config : Config) (registry : Registry) :
    (e.choose config registry).Standing := by
  rcases e.choose_cases config registry with
    ⟨hstop, hc⟩ | ⟨-, -, hc⟩ | ⟨-, s, fault, -, -, hc⟩ | ⟨-, s, d, -, -, hc⟩ <;> rw [hc]
  · exact h.beginStop (h.stop hstop)
  · exact h.conclude .allStepsCompleted trivial none
  · have hfailed : Underway { e with job := e.job.noting fault .failed } := { h with }
    exact hfailed.conclude .fatalError trivial (some fault)
  · exact h.goTo ⟨rfl, Or.inl rfl⟩ ⟨rfl, Or.inr rfl⟩

/-- A job with a failed attempt stands as its stage says. -/
theorem Underway.attemptFailed (h : e.Underway) (config : Config) (run : StepRun)
    (fault : Fault) : (e.attemptFailed config run fault).Standing := by
  have hnoting (status : StepStatus) : Underway { e with job := e.job.noting fault status } :=
    { h with }
  rcases e.attemptFailed_cases config run fault with
    ⟨hstop, hc⟩ | ⟨-, -, hc⟩ | ⟨-, -, -, -, hc⟩ <;> rw [hc]
  · exact h.beginStop (h.stop hstop)
  · exact (hnoting .failed).conclude _ fault.isClosing_ending (some fault)
  · exact (hnoting .pending).goTo ⟨rfl, Or.inl rfl⟩ ⟨rfl, Or.inr rfl⟩

private theorem Underway.backOff (h : e.Underway) (now : Nat) (run : StepRun) :
    (e.backOff now run).Standing := by
  rcases e.backOff_cases now run with ⟨-, hc⟩ | ⟨-, hc⟩ <;> rw [hc] <;>
  exact h.goTo ⟨rfl, Or.inl rfl⟩ ⟨rfl, Or.inr rfl⟩

/-- A job whose program has come to something stands as its stage says. -/
theorem Underway.afterRun (h : e.Underway) (config : Config) (run : StepRun)
    (result : Suspension (Except Fault Unit) ⊕ Except Fault Unit) :
    (e.afterRun config run result).Standing := by
  rcases result with suspension | fault | ⟨⟩
  · exact h.goTo ⟨rfl, Or.inl rfl⟩ ⟨rfl, Or.inr rfl⟩
  · exact h.attemptFailed config run fault
  · exact h.goTo ⟨rfl, Or.inl rfl⟩ ⟨rfl, Or.inr rfl⟩

/-- An entry that differs in its job and its stage only. -/
theorem Standing.next {e' : JobEntry} (h : e.Standing) (hphase : e'.phase = e.phase)
    (hstop : e'.stop = e.stop) (harchived : e'.archived = e.archived)
    (hsnapshot : e'.snapshot.state = e'.job.state)
    (hbefits : e'.stage.Befits e'.job.state e'.phase) : e'.Standing where
  befits := hbefits
  snapshot := hsnapshot
  stop := by
    rw [hphase, hstop]
    exact h.stop
  archived := by
    rw [hphase, harchived]
    exact h.archived

/-- The worker of a job that stands well before a move stands well after the move failed. -/
theorem Standing.moveRefused (h : e.Standing) {event : JobEvent}
    (hbefits : event.Befits e.job.state e.phase) (now : Nat) (policy : RetryPolicy)
    (tries : UInt32) (fault : Fault) :
    (e.moveRefused now event policy tries fault).Standing := by
  rcases e.moveRefused_cases now event policy tries fault with
    ⟨-, -, hc⟩ | ⟨-, ⟨rfl, hc⟩ | ⟨-, hc⟩⟩ <;> rw [hc]
  · exact h.next rfl rfl rfl h.snapshot hbefits
  · exact h.next rfl rfl rfl h.snapshot hbefits
  · exact h.next rfl rfl rfl h.snapshot ⟨Or.inr hbefits.underway, nofun⟩

/-- The worker of a job that stands well before a move stands well after it is recorded. -/
theorem Standing.moved (h : e.Standing) {event : JobEvent}
    (hbefits : event.Befits e.job.state e.phase) {job : Job}
    (hnext : e.job.state.next? event = some job.state) (config : Config) :
    ({ e with snapshot := job, job }.moved config event).Standing := by
  cases event <;> obtain ⟨hstate, hphase⟩ := hbefits <;> rw [hstate] at hnext <;>
    have hjob := Option.some.inj hnext
  case start => exact h.next rfl rfl rfl rfl ⟨hjob.symm, hphase⟩
  case stopRequested => exact h.next rfl rfl rfl rfl ⟨hjob.symm, hphase⟩
  case stopSettled =>
    have hend : job.state.isTerminal = true ∧ job.state.isOrdinaryEnd = false := by
      rw [← hjob]
      exact ⟨rfl, rfl⟩
    refine h.next rfl rfl rfl rfl ⟨Or.inr ⟨fun hqueued => ?_, hend.2⟩, fun _ => hend.1⟩
    cases hqueued.symm.trans hphase
  all_goals
    refine h.next rfl rfl rfl rfl ⟨Or.inl hphase, fun _ => ?_⟩
    change job.state.isTerminal = true
    rw [← hjob]
    rfl

/-- How a job stands is kept by everything that its worker does. -/
theorem standing_law : Law (fun _ e => e.Standing) (fun _ _ => True) where
  asked _ _ _ h ha := h.mayBeAsked ha
  works f id e h := by
    have hbefits := h.befits
    have hrecorded (hunderway : e.Underway) (job : Job) (hstate : job.state = .running) :
        Underway { e with snapshot := job, job } :=
      { hunderway with state := hstate, snapshot := hstate }
    unfold work
    cases hstage : e.stage with
    | queued =>
      rw [hstage] at hbefits
      obtain ⟨hstate, hphase⟩ := hbefits
      dsimp only
      split
      · refine ⟨⟨hstate, Or.inl rfl⟩, h.snapshot, fun hstop => ?_, fun ha => ?_⟩
        · rcases h.stop hstop with hasked | hfinished
          · cases hphase.symm.trans hasked
          · cases hphase.symm.trans hfinished
        · cases hphase.symm.trans (h.archived ha)
      · exact h
    | moving event policy tries =>
      rw [hstage] at hbefits
      obtain ⟨state, hnext⟩ := hbefits.next?
      dsimp only
      rw [hnext]
      refine ⟨trivial, fun fault => ?_, ?_⟩
      · have hback : Standing { e with job := { f.stamped { e.job with state } with
            state := e.job.state } } := { h with }
        exact hback.moveRefused hbefits f.now policy (tries + 1) fault
      · exact h.moved hbefits hnext f.config
    | resting event policy tries wakeAt =>
      rw [hstage] at hbefits
      dsimp only
      split
      · exact h.next rfl rfl rfl h.snapshot hbefits
      · exact h
    | choosing =>
      rw [hstage] at hbefits
      exact (h.underway hbefits).choose f.config f.registry
    | starting run =>
      rw [hstage] at hbefits
      have hunderway := h.underway hbefits
      refine ⟨trivial, fun fault => ?_, ?_⟩
      · have hbegun : Underway { e with job := f.stamped e.job.beginAttempt } := { hunderway with }
        exact hbegun.attemptFailed f.config run fault
      · have hbegun := hrecorded hunderway (f.stamped e.job.beginAttempt) hunderway.state
        exact hbegun.goTo ⟨rfl, Or.inl rfl⟩ ⟨rfl, Or.inr rfl⟩
    | acting run program =>
      rw [hstage] at hbefits
      have hunderway := h.underway hbefits
      dsimp only
      split
      · next hstop => exact hunderway.beginStop (hunderway.stop hstop)
      · exact fun result e' ha => (hunderway.mayBeAsked ha).afterRun f.config run result
    | waiting run suspension =>
      rw [hstage] at hbefits
      have hunderway := h.underway hbefits
      dsimp only
      split
      · next hstop => exact hunderway.beginStop (hunderway.stop hstop)
      · split
        · exact fun result e' ha => (hunderway.mayBeAsked ha).afterRun f.config run result
        · exact h
    | succeeding run =>
      rw [hstage] at hbefits
      have hunderway := h.underway hbefits
      refine ⟨trivial, fun fault => ?_, ?_⟩
      · have hback : Underway { e with job := { e.job with
            updatedAtMs := (f.stamped e.job.completeStep).updatedAtMs } } := { hunderway with }
        exact hback.attemptFailed f.config run fault
      · have hdone := hrecorded hunderway (f.stamped e.job.completeStep) hunderway.state
        exact hdone.goTo ⟨rfl, Or.inl rfl⟩ ⟨rfl, Or.inr rfl⟩
    | pausing run =>
      rw [hstage] at hbefits
      have hunderway := h.underway hbefits
      refine ⟨trivial, fun fault => ?_, ?_⟩
      · have hpaused : Underway { e with job := f.stamped e.job } := { hunderway with }
        exact hpaused.backOff f.now run
      · exact (hrecorded hunderway (f.stamped e.job) hunderway.state).backOff f.now run
    | backingOff run wakeAt =>
      rw [hstage] at hbefits
      have hunderway := h.underway hbefits
      dsimp only
      split
      · next hstop => exact hunderway.beginStop (hunderway.stop hstop)
      · split
        · exact hunderway.goTo ⟨rfl, Or.inl rfl⟩ ⟨rfl, Or.inr rfl⟩
        · exact h
    | leaving result => exact ⟨rfl, h.snapshot, fun _ => Or.inr rfl, fun _ => rfl⟩
    | gone => exact h

end JobEntry

end Flotilla
