import Flotilla.Proofs.Fleet.Attempting
import Flotilla.Proofs.Fleet.JobHistory

/-!
# What a stop puts an end to

Once a job was asked to stop, no step of it does anything any more. Its worker may still record the
start of an attempt, a pause or a success that has been reached, but it looks at the flag before it
runs a program, so no command is sent, no transaction of a step is opened, and the turn of no other
step comes but by that one success (`Fleet.no_step_acts_after_stop`).
-/

namespace Flotilla

namespace JobEntry

variable {e e' : JobEntry} {n : Nat} {due : Prop}

/-- The steps that a job can come to once it was asked to stop as it stands: only the success that
is still to be recorded brings the turn of the next one. -/
def MayReach (e : JobEntry) (n : Nat) : Prop :=
  n = e.job.currentStep ∨ ((∃ run, e.stage = .succeeding run) ∧ n = e.job.currentStep + 1)

/-- A job that was asked to stop at its step number `n`; `due` says whether the success of that step
was still to be recorded then. -/
structure StoppedAtStep (n : Nat) (due : Prop) (e : JobEntry) : Prop where
  stop : e.stop = true
  level : e.Level
  step : e.job.currentStep = n ∨ (due ∧ e.job.currentStep = n + 1)
  succeeding : ∀ run, e.stage = .succeeding run → due ∧ e.job.currentStep = n

private theorem StoppedAtStep.same (h : e.StoppedAtStep n due) (hsame : e.Same e')
    (hstop : e'.stop = true) :
    e'.StoppedAtStep n due where
  stop := hstop
  level := by
    rw [Level, hsame.snapshot, hsame.job]
    exact h.level
  step := by
    rw [hsame.job]
    exact h.step
  succeeding run hstage := by
    rw [hsame.job]
    exact h.succeeding run (hsame.stage.symm.trans hstage)

/-- The worker of a job that was asked to stop comes to no success. -/
theorem not_succeeding_of_brings {f : Fleet} {id : JobId} (hstop : e.stop = true)
    (h : (e.work f id).Brings f id e e') (run : StepRun) : e'.stage ≠ .succeeding run := by
  intro hsucceeding
  have htrying : e'.stage.Trying := by
    rw [hsucceeding]
    trivial
  cases trying_of_brings h htrying with
  | waited hstage => cases hstage.symm.trans hsucceeding
  | begun hstage hanswer => cases hsucceeding
  | performed hwork ha => exact (perform_cases hwork).1 hstop

private theorem StoppedAtStep.brings {f : Fleet} {id : JobId} (h : e.StoppedAtStep n due)
    (hbrings : (e.work f id).Brings f id e e') : e'.StoppedAtStep n due where
  stop := stop_of_brings hbrings h.stop
  level := h.level.brings hbrings
  step := by
    cases proceeds_of_brings hbrings with
    | kept hsteps =>
      rw [hsteps.currentStep]
      exact h.step
    -- The success that was due brings the turn of the next step.
    | completed hstage hsteps =>
      obtain ⟨hdue, hn⟩ := h.succeeding _ hstage
      exact Or.inr ⟨hdue, hsteps.currentStep.trans (congrArg (· + 1) hn)⟩
  succeeding run hrun := (not_succeeding_of_brings h.stop hbrings run hrun).elim

/-- A job that was stopped at a step stays at that step, and takes at most the success that is
due. -/
theorem rule_stoppedAtStep (n : Nat) (due : Prop) : Rule fun _ _ e => e.StoppedAtStep n due where
  asked _ _ e e' h ha := by
    refine h.same ha.same ?_
    rcases ha with rfl | ⟨-, rfl⟩
    · exact h.stop
    · rfl
  works _ _ _ _ _ _ h hbrings := h.brings hbrings
  claimed _ _ _ h hphase := h.same (Marked.claimed hphase).same h.stop
  raised _ _ _ h hclaimed := h.same (Marked.raised hclaimed).same rfl

end JobEntry

namespace Fleet

variable {f g : Fleet} {id : JobId} {e : JobEntry}

/-- The next turn of the worker of a job is one in which no step of the job does anything. It runs
no program, and all that it can leave behind is one record of the job, and that the requests of the
job are called off. -/
structure IdleTurn (id : JobId) (f : Fleet) : Prop where
  idle : ∀ e, f.jobs.get? id = some e → (e.work f id).Idle
  broker : (f.workerTurn id).fleet.broker = f.broker
  chronicle : (f.workerTurn id).fleet.chronicle = f.chronicle ∨
    ∃ tx job, job.id = id ∧ (f.workerTurn id).fleet.chronicle = f.chronicle ++
      [(f.now, .committed tx [recordOf job]), (f.now, .recorded id job.state job.currentStep)]
  correlator : (f.workerTurn id).fleet.correlator = f.correlator ∨
    (f.workerTurn id).fleet.correlator = (f.correlator.cancelOwnedBy id).2
  transactions : (f.workerTurn id).fleet.transactions = f.transactions ∨
    ∃ job, job.id = id ∧ (f.workerTurn id).fleet.transactions = (f.persist job).2.2.transactions

/-- A worker that is asked to stop runs no program in its turn. -/
theorem idleTurn_of_stop (he : f.jobs.get? id = some e) (hid : e.job.id = id)
    (hstop : e.stop = true) : IdleTurn id f := by
  have hworks := workerTurn_works he hid
  have hidle := JobEntry.idle_work hstop f id
  have hpreserves := e.preserves_work f id
  have hentry : ∀ e', f.jobs.get? id = some e' → (e'.work f id).Idle := by
    rintro e' he'
    cases he.symm.trans he'
    exact hidle
  generalize hg : (f.workerTurn id).fleet = g at hworks
  generalize e.work f id = work at hworks hidle hpreserves
  cases hworks with
  | change e' agenda permits =>
    refine ⟨hentry, ?_, Or.inl ?_, Or.inl ?_, Or.inl ?_⟩ <;> rw [hg]
  | @refused job cancels next fault m agenda hstore hpersist =>
    refine ⟨hentry, ?_, Or.inl ?_, Or.inl ?_, Or.inr ⟨job, hpreserves.1.trans hid, ?_⟩⟩ <;> rw [hg]
    rw [hpersist]
  | @taken job cancels next tx m agenda hstore hpersist =>
    have hjob : job.id = id := hpreserves.1.trans hid
    refine ⟨hentry, ?_, Or.inr ⟨tx, f.stamped job, hjob, ?_⟩, ?_, Or.inr ⟨job, hjob, ?_⟩⟩ <;>
      rw [hg]
    · rfl
    · rw [← hjob]
      exact List.append_assoc _ _ _
    · cases cancels with
      | false => exact Or.inl rfl
      | true => exact Or.inr rfl
    · rw [hpersist]
  | performed result g e' before agenda hrun hentry' => exact hidle.elim

/-- From now on no step of the job does anything, and the turn of no step comes that is not its turn
already, but by the success that is still to be recorded. -/
def IdleFromNowOn (id : JobId) (f : Fleet) : Prop :=
  ∃ e, f.jobs.get? id = some e ∧
    ∀ g, Run (fun _ => True) f g → g.submitted < 2 ^ 64 → IdleTurn id g ∧
      (∃ e', g.jobs.get? id = some e' ∧ e.MayReach e'.job.currentStep) ∧
      ∃ later, g.historyOf id = f.historyOf id ++ later ∧ ∀ r ∈ later, e.MayReach r.2

/-- From a stop on, no turn of the worker runs a program, and at most one success is recorded. -/
theorem Rooted.idleFromNowOn (hf : f.Rooted) (he : f.jobs.get? id = some e) (hstop : e.stop = true)
    (hlevel : e.Level) : IdleFromNowOn id f := by
  refine ⟨e, he, fun g hrun hlt => ?_⟩
  have hstopped : e.StoppedAtStep e.job.currentStep (∃ run, e.stage = .succeeding run) :=
    ⟨hstop, hlevel, Or.inl rfl, fun run hrun => ⟨⟨run, hrun⟩, rfl⟩⟩
  have hsustains :=
    (looseRun_of_run hrun).sustains (JobEntry.rule_stoppedAtStep _ _) hf he hstopped hlt
  have hg := ((looseRun_of_run hrun).steady hf).rooted
  obtain ⟨⟨e', he', hstopped'⟩, later, hlater, hall⟩ := hsustains
  refine ⟨idleTurn_of_stop he' (hg.ids id e' he') hstopped'.stop, ⟨e', he', hstopped'.step⟩, later,
    hlater, fun r hr => ?_⟩
  obtain ⟨e₁, hstopped₁, rfl⟩ := hall r hr
  rw [hstopped₁.level]
  exact hstopped₁.step

/-- From the moment on at which a stop is accepted, no step of the job does anything: none is run,
none sends a command or opens a transaction, and the turn of the next one comes at most by a success
that was reached before. This is so at whatever stage the stop finds the worker, and also when a
step asks for the stop of its own job; the turn in which it asks counts as one. -/
theorem no_step_acts_after_stop {config : Config} {store : UnreliableStore} {registry : Registry}
    (hrun : Run (fun _ => True) (opened config store registry) f) (id : JobId) :
    ((f.stop id).1 = .ok () → IdleFromNowOn id (f.stop id).2) ∧
    ∀ e, f.jobs.get? id = some e → e.stop = true → IdleFromNowOn id f := by
  have hfromNowOn {g : Fleet} (hg : Run (fun _ => True) (opened config store registry) g)
      (e : JobEntry) (he : g.jobs.get? id = some e) (hstop : e.stop = true) :
      IdleFromNowOn id g := by
    have hloose := looseRun_of_run hg
    have hrooted := (hloose.steady (rooted_opened config store registry)).rooted
    exact hrooted.idleFromNowOn he hstop (level_of_run hloose he).2
  refine ⟨fun haccepted => ?_, hfromNowOn hrun⟩
  have hf := (orderly_opened config store registry).run hrun
  obtain ⟨e, he, hstop⟩ := asked_of_stop hf haccepted
  exact hfromNowOn (hrun.tail (.stop id)) e he hstop

/-- A fleet whose job was asked to stop when it was about to record the success of its only step,
and whose worker has left. -/
def finishedFleet : Fleet := (countingFleet.stop 1).2.turns (List.replicate 6 (.worker 1))

/-- The success is recorded, and so is the stop. -/
theorem no_step_acts_after_stop_finishedFleet :
    (countingFleet.stop 1).1 = .ok () ∧ IdleFromNowOn 1 (countingFleet.stop 1).2 ∧
      finishedFleet.historyOf 1 = (countingFleet.stop 1).2.historyOf 1 ++
        [(.running, 1), (.stopping, 1), (.stopped, 1)] := by
  have hrun : Run (fun _ => True)
      (opened .standard (.new []) ⟨Table.ofList [("count", counting)]⟩) countingFleet :=
    .head (.submit "edge-1" [.new "count"]) (run_turns _ _)
  have haccepted : (countingFleet.stop 1).1 = .ok () := rfl
  exact ⟨haccepted, (no_step_acts_after_stop hrun 1).1 haccepted, by decide +kernel⟩

end Fleet

end Flotilla
