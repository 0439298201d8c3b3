import Flotilla.Proofs.Fleet.StepEffects

/-!
# Workers that leave

A worker is there until it leaves, and it leaves for good. A job is given up to the store when its
worker leaves with an end on record, and it stays tracked when none could be recorded. Nothing but
leaving does either (`JobEntry.Parted`), and all of it survives whatever happens to a job
(`JobEntry.fineLaw_parted`).
-/

namespace Flotilla

namespace JobEntry

/-- A job whose worker is there. -/
structure Present (e : JobEntry) : Prop where
  done : e.done = false
  archived : e.archived = false

/-- What the flags say of a worker at its stage: it is there, and leaves as the snapshot says, or it
has left, and the store knows about the job if the snapshot shows its end. -/
def Parted (e : JobEntry) : Prop :=
  match e.stage with
  | .gone => e.done = true ∧ e.archived = e.snapshot.isTerminal
  | .leaving result => e.Present ∧ result.isOk = e.snapshot.isTerminal
  | .queued | .moving .. | .resting .. | .choosing | .starting _ | .acting .. | .waiting ..
  | .succeeding _ | .pausing _ | .backingOff .. => e.Present

variable {e e' : JobEntry} {config : Config} {run : StepRun}

private theorem Present.conclude (h : e.Present) (event : JobEvent) (failure : Option Fault) :
    (e.conclude config event failure).Parted := by
  rcases e.conclude_cases config event failure with ⟨-, hc⟩ | ⟨-, hc⟩ <;> rw [hc] <;>
  exact ⟨h.done, h.archived⟩

private theorem Present.choose (h : e.Present) (registry : Registry) :
    (e.choose config registry).Parted := by
  rcases e.choose_cases config registry with
    ⟨-, hc⟩ | ⟨-, -, hc⟩ | ⟨-, s, fault, -, -, hc⟩ | ⟨-, s, d, -, -, hc⟩ <;> rw [hc]
  · exact ⟨h.done, h.archived⟩
  · exact h.conclude _ _
  · have hfailed : Present { e with job := e.job.noting fault .failed } := ⟨h.done, h.archived⟩
    exact hfailed.conclude _ _
  · exact ⟨h.done, h.archived⟩

private theorem Present.attemptFailed (h : e.Present) (run : StepRun) (fault : Fault) :
    (e.attemptFailed config run fault).Parted := by
  rcases e.attemptFailed_cases config run fault with
    ⟨-, hc⟩ | ⟨-, -, hc⟩ | ⟨-, -, -, -, hc⟩ <;> rw [hc]
  · exact ⟨h.done, h.archived⟩
  · have hfailed : Present { e with job := e.job.noting fault .failed } := ⟨h.done, h.archived⟩
    exact hfailed.conclude _ _
  · exact ⟨h.done, h.archived⟩

private theorem Present.backOff (h : e.Present) (now : Nat) (run : StepRun) :
    (e.backOff now run).Parted := by
  rcases e.backOff_cases now run with ⟨-, hc⟩ | ⟨-, hc⟩ <;> rw [hc] <;>
  exact ⟨h.done, h.archived⟩

private theorem Present.afterRun (h : e.Present) (run : StepRun)
    (result : Suspension (Except Fault Unit) ⊕ Except Fault Unit) :
    (e.afterRun config run result).Parted := by
  rcases result with suspension | fault | ⟨⟩
  · exact ⟨h.done, h.archived⟩
  · exact h.attemptFailed run fault
  · exact ⟨h.done, h.archived⟩

/-- A worker gives up a move only when no end is on record. -/
theorem Present.moveRefused (h : e.Present) (hopen : e.snapshot.isTerminal = false) (now : Nat)
    (event : JobEvent) (policy : RetryPolicy) (tries : UInt32) (fault : Fault) :
    (e.moveRefused now event policy tries fault).Parted := by
  rcases e.moveRefused_cases now event policy tries fault with
    ⟨-, -, hc⟩ | ⟨-, ⟨-, hc⟩ | ⟨-, hc⟩⟩ <;> rw [hc]
  · exact ⟨h.done, h.archived⟩
  · exact ⟨h.done, h.archived⟩
  · exact ⟨⟨h.done, h.archived⟩, hopen.symm⟩

/-- A worker leaves without a fault only when the end is on record. -/
theorem Present.moved (h : e.Present) {event : JobEvent}
    (hend : ∀ result, (e.moved config event).stage = .leaving result →
      e.snapshot.isTerminal = true) : (e.moved config event).Parted := by
  cases event with
  | start | stopRequested => exact ⟨h.done, h.archived⟩
  | allStepsCompleted | stepExhausted | fatalError | stopSettled =>
    exact ⟨⟨h.done, h.archived⟩, (hend _ rfl).symm⟩

private theorem Present.mayBeAsked (h : e.Present) (ha : e.MayBeAsked e') : e'.Present := by
  rcases ha with rfl | ⟨-, rfl⟩
  · exact h
  · exact ⟨h.done, h.archived⟩

/-- A new worker is there. -/
theorem parted_new (job : Job) : (JobEntry.new job).Parted := ⟨rfl, rfl⟩

/-- What a mark leaves alone is all that the flags depend on. -/
theorem Parted.same (h : e.Parted) (hsame : e.Same e') (hdone : e'.done = e.done)
    (harchived : e'.archived = e.archived) : e'.Parted := by
  have hpresent (hp : e.Present) : e'.Present :=
    ⟨hdone.trans hp.done, harchived.trans hp.archived⟩
  unfold Parted at h ⊢
  rw [hsame.stage, hsame.snapshot]
  cases hstage : e.stage with
  | gone =>
    rw [hstage] at h
    exact ⟨hdone.trans h.1, harchived.trans h.2⟩
  | leaving result =>
    rw [hstage] at h
    exact ⟨hpresent h.1, h.2⟩
  | _ =>
    rw [hstage] at h
    exact hpresent h

/-- A job whose worker is about to record a move is not at its end. -/
theorem Standing.isTerminal_of_befits (h : e.Standing) {event : JobEvent}
    (hbefits : event.Befits e.job.state e.phase) : e.snapshot.isTerminal = false := by
  change e.snapshot.state.isTerminal = false
  rw [h.snapshot]
  cases event <;> rw [hbefits.1] <;> rfl

/-- A turn leaves the flags of a worker saying whether it is there. -/
theorem Standing.parted_work (h : e.Standing) (hparted : e.Parted) (f : Fleet) (id : JobId) :
    (e.work f id).Keeps Parted (fun _ => True) f e := by
  have hbefits := h.befits
  have hstands := standing_law.works f id e h
  have hkept : e.Parted := hparted
  unfold Parted at hparted
  unfold work at hstands ⊢
  cases hstage : e.stage with
  | queued =>
    rw [hstage] at hparted
    dsimp only
    split
    · exact ⟨hparted.done, hparted.archived⟩
    · exact hkept
  | moving event policy tries =>
    rw [hstage] at hbefits hparted hstands
    obtain ⟨state, hnext⟩ := JobEvent.Befits.next? hbefits
    dsimp only at hstands ⊢
    rw [hnext] at hstands ⊢
    refine ⟨trivial, fun fault => ?_, ?_⟩
    · have hback : Present { e with job := { f.stamped { e.job with state } with
          state := e.job.state } } := ⟨hparted.done, hparted.archived⟩
      exact hback.moveRefused (h.isTerminal_of_befits hbefits) f.now event policy (tries + 1) fault
    · have htaken : Present { e with
          snapshot := f.stamped { e.job with state }, job := f.stamped { e.job with state } } :=
        ⟨hparted.done, hparted.archived⟩
      refine htaken.moved fun result hleaving => ?_
      -- The law of how a job stands knows which moves end it.
      have hafter := hstands.2.2.befits
      have hends : (f.stamped { e.job with state }).state.isTerminal = true := by
        cases event <;> cases hleaving <;> exact hafter.2 rfl
      exact hends
  | resting event policy tries wakeAt =>
    rw [hstage] at hparted
    dsimp only
    split
    · exact ⟨hparted.done, hparted.archived⟩
    · exact hkept
  | choosing =>
    rw [hstage] at hparted
    exact hparted.choose _
  | starting run =>
    rw [hstage] at hparted
    refine ⟨trivial, fun fault => ?_, hparted.done, hparted.archived⟩
    have hbegun : Present { e with job := f.stamped e.job.beginAttempt } :=
      ⟨hparted.done, hparted.archived⟩
    exact hbegun.attemptFailed run fault
  | acting run program =>
    rw [hstage] at hparted
    dsimp only
    split
    · exact ⟨hparted.done, hparted.archived⟩
    · exact fun result e' ha => (hparted.mayBeAsked ha).afterRun run result
  | waiting run suspension =>
    rw [hstage] at hparted
    dsimp only
    split
    · exact ⟨hparted.done, hparted.archived⟩
    · split
      · exact fun result e' ha => (hparted.mayBeAsked ha).afterRun run result
      · exact hkept
  | succeeding run =>
    rw [hstage] at hparted
    refine ⟨trivial, fun fault => ?_, hparted.done, hparted.archived⟩
    have hback : Present { e with job := { e.job with
        updatedAtMs := (f.stamped e.job.completeStep).updatedAtMs } } :=
      ⟨hparted.done, hparted.archived⟩
    exact hback.attemptFailed run fault
  | pausing run =>
    rw [hstage] at hparted
    have hpaused (snapshot : Job) : Present { e with snapshot, job := f.stamped e.job } :=
      ⟨hparted.done, hparted.archived⟩
    exact ⟨trivial, fun fault => (hpaused e.snapshot).backOff f.now run,
      (hpaused (f.stamped e.job)).backOff f.now run⟩
  | backingOff run wakeAt =>
    rw [hstage] at hparted
    dsimp only
    split
    · exact ⟨hparted.done, hparted.archived⟩
    · split
      · exact ⟨hparted.done, hparted.archived⟩
      · exact hkept
  | leaving result =>
    rw [hstage] at hparted
    exact ⟨rfl, hparted.2⟩
  | gone => exact hkept

/-- What the flags say is kept by everything that happens to a job. -/
theorem fineLaw_parted : FineLaw (fun _ e => e.Standing ∧ e.Parted) (fun _ _ => True) := by
  refine ⟨standing_law.refine ?_ ?_, ?_, ?_⟩
  · rintro _ e e' - hparted (rfl | ⟨hphase, rfl⟩)
    · exact hparted
    · exact hparted.same ⟨rfl, rfl, rfl⟩ rfl rfl
  · exact fun f id e h hparted => h.parted_work hparted f id
  · exact fun _ e h hphase => ⟨h.1.claim hphase, h.2.same ⟨rfl, rfl, rfl⟩ rfl rfl⟩
  · exact fun _ e h hclaimed => ⟨{ h.1 with stop := fun _ => hclaimed },
      h.2.same ⟨rfl, rfl, rfl⟩ rfl rfl⟩

/-- A job is done when its worker has left. -/
theorem Parted.done_iff (h : e.Parted) : e.done = true ↔ e.stage = .gone := by
  unfold Parted at h
  cases hstage : e.stage with
  | gone =>
    rw [hstage] at h
    exact ⟨fun _ => rfl, fun _ => h.1⟩
  | leaving result =>
    rw [hstage] at h
    rw [h.1.done]
    exact ⟨nofun, nofun⟩
  | _ =>
    rw [hstage] at h
    rw [h.done]
    exact ⟨nofun, nofun⟩

/-- A job is archived exactly when its worker has left with its end on record. -/
theorem Parted.archived_iff (h : e.Parted) :
    e.archived = true ↔ e.done = true ∧ e.snapshot.isTerminal = true := by
  unfold Parted at h
  cases hstage : e.stage with
  | gone =>
    rw [hstage] at h
    rw [h.1, h.2]
    exact ⟨fun hend => ⟨rfl, hend⟩, fun hend => hend.2⟩
  | leaving result =>
    rw [hstage] at h
    rw [h.1.done, h.1.archived]
    exact ⟨nofun, nofun⟩
  | _ =>
    rw [hstage] at h
    rw [h.done, h.archived]
    exact ⟨nofun, nofun⟩

/-- A worker that leaves says whether its job is at an end. -/
theorem Parted.leaving (h : e.Parted) {result : Except Fault Unit}
    (hstage : e.stage = .leaving result) : result.isOk = e.snapshot.isTerminal := by
  rw [Parted, hstage] at h
  exact h.2

end JobEntry

/-- In every run the flags of a worker say whether it is there. -/
theorem Fleet.LooseRun.parted {config : Config} {store : UnreliableStore} {registry : Registry}
    {f : Fleet} {id : JobId} {e : JobEntry}
    (h : LooseRun (Fleet.opened config store registry) f) (he : f.jobs.get? id = some e) :
    e.Standing ∧ e.Parted :=
  h.obeys JobEntry.fineLaw_parted.rule
    (fun _ _ _ _ => ⟨JobEntry.standing_new rfl, JobEntry.parted_new _⟩) he

end Flotilla
