import Flotilla.Proofs.Fleet.Attempting

/-!
# Attempts whose request is called off

An attempt that fails because its request was called off ends the job like any other failure that
rules out another attempt, unless the worker sees a stop when it looks at the fault. A stop that has
claimed the phase and not yet raised its flag still decides how the job ends, but it comes too late
for the step, which is recorded as failed (`Fleet.cancelled_lets_go_iff`).
-/

namespace Flotilla

/-- A step of a job that is not marked as failed. -/
def Job.Unharmed (n : Nat) (job : Job) : Prop :=
  ∀ s, job.steps[n]? = some s → s.status ≠ .failed

/-- Marking what was under way as called off marks nothing as failed. -/
theorem Job.Unharmed.cancelCurrent {n : Nat} {job : Job} (h : job.Unharmed n) :
    job.cancelCurrent.Unharmed n := by
  intro s hs
  rw [Job.cancelCurrent, Job.getElem?_modifyCurrent] at hs
  split at hs
  · obtain ⟨t, ht, rfl⟩ := Option.map_eq_some_iff.1 hs
    split
    · exact nofun
    · exact h t ht
  · exact h s hs

/-- A failure that is noted at a step marks it as failed. -/
theorem Job.not_unharmed_noting {job : Job} {s : JobStep} (h : job.current? = some s)
    (fault : Fault) : ¬(job.noting fault .failed).Unharmed job.currentStep := by
  intro hunharmed
  exact hunharmed _ (Job.current?_noting h fault .failed) rfl

private theorem Job.Unharmed.of_steps_eq {n : Nat} {job job' : Job} (h : job.Unharmed n)
    (hsteps : job'.steps = job.steps) : job'.Unharmed n := by
  rw [Job.Unharmed, hsteps]
  exact h

/-- Events of a stop. -/
def JobEvent.IsStop : JobEvent → Prop
  | .stopRequested | .stopSettled => True
  | .start | .allStepsCompleted | .stepExhausted | .fatalError => False

/-- Stages of a worker that records nothing but a stop any more. -/
def Stage.Stopping : Stage → Prop
  | .moving event .. | .resting event .. => event.IsStop
  | .leaving _ | .gone => True
  | .queued | .choosing | .starting _ | .acting .. | .waiting .. | .succeeding _ | .pausing _
  | .backingOff .. => False

private theorem Stage.Stopping.run? {stage : Stage} (h : stage.Stopping) : stage.run? = none := by
  cases stage with
  | moving | resting | leaving | gone => rfl
  | _ => exact h.elim

namespace JobEntry

variable {e e' : JobEntry} {f : Fleet} {id : JobId} {n : Nat} {run : StepRun}
  {program : Program Stepping (Except Fault Unit)}

/-- A worker on its way to a stop, whose job has a step that is not marked as failed. -/
structure LettingGo (n : Nat) (e : JobEntry) : Prop where
  stopping : e.stage.Stopping
  snapshot : e.snapshot.Unharmed n
  job : e.job.Unharmed n

private theorem LettingGo.same (h : e.LettingGo n) (hsame : e.Same e') : e'.LettingGo n where
  stopping := by
    rw [hsame.stage]
    exact h.stopping
  snapshot := by
    rw [hsame.snapshot]
    exact h.snapshot
  job := by
    rw [hsame.job]
    exact h.job

private theorem LettingGo.moveRefused (h : e.LettingGo n) (now : Nat) {event : JobEvent}
    (hevent : event.IsStop) (policy : RetryPolicy) (tries : UInt32) (fault : Fault) :
    (e.moveRefused now event policy tries fault).LettingGo n := by
  rcases e.moveRefused_cases now event policy tries fault with
    ⟨-, -, hc⟩ | ⟨-, ⟨rfl, -⟩ | ⟨-, hc⟩⟩
  · rw [hc]
    exact ⟨hevent, h.snapshot, h.job⟩
  · exact hevent.elim
  · rw [hc]
    exact ⟨trivial, h.snapshot, h.job⟩

private theorem LettingGo.moved (h : e.LettingGo n) (config : Config) {event : JobEvent}
    (hevent : event.IsStop) : (e.moved config event).LettingGo n := by
  cases event with
  | stopRequested => exact ⟨trivial, h.snapshot, h.job.cancelCurrent⟩
  | stopSettled => exact ⟨trivial, h.snapshot, h.job⟩
  | _ => exact hevent.elim

/-- A worker on its way to a stop stays on it, and marks no step as failed. -/
theorem LettingGo.brings (h : e.LettingGo n) (hbrings : (e.work f id).Brings f id e e') :
    e'.LettingGo n := by
  have hidle := h.stopping.run?
  have hstopping := h.stopping
  cases hwork : e.work f id with
  | change e₁ =>
    rw [hwork] at hbrings
    obtain rfl := hbrings
    cases changes_of_work hwork with
    | stays => exact h
    | misplaced hstage =>
      rw [hstage] at hstopping
      exact h.moveRefused _ hstopping _ _ _
    | rested hstage =>
      rw [hstage] at hstopping
      exact ⟨hstopping, h.snapshot, h.job⟩
    | left => exact ⟨trivial, h.snapshot, h.job⟩
    | stopped _ hheeds =>
      rw [heedsStop] at hheeds
      split at hheeds
      · next hstage => exact (hstage ▸ hstopping : (Stage.acting _ _).Stopping).elim
      · next hstage => exact (hstage ▸ hstopping : (Stage.waiting _ _).Stopping).elim
      · next hstage => exact (hstage ▸ hstopping : (Stage.backingOff _ _).Stopping).elim
      · cases hheeds
    | admitted hstage | chose hstage | resumed hstage =>
      rw [hstage] at hstopping
      exact hstopping.elim
  | record job cancels next =>
    rw [hwork] at hbrings
    rcases record_cases hwork with ⟨event, policy, tries, state, hstage, -, rfl, -, rfl⟩ |
      ⟨run, hstage, -⟩ | ⟨run, hstage, -⟩ | ⟨run, hstage, -⟩
    · rw [hstage] at hstopping
      let job : Job := f.stamped { e.job with state }
      have hjob : job.Unharmed n := h.job.of_steps_eq rfl
      rcases hbrings with ⟨fault, -, rfl⟩ | ⟨-, rfl⟩
      · have hback : LettingGo n { e with job := { job with state := e.job.state } } :=
          ⟨h.stopping, h.snapshot, hjob⟩
        exact hback.moveRefused _ hstopping _ _ _
      · have htaken : LettingGo n { e with snapshot := job, job } := ⟨h.stopping, hjob, hjob⟩
        exact htaken.moved _ hstopping
    all_goals
      rw [hstage] at hidle
      cases hidle
  | perform run program => cases hidle.symm.trans (trying_of_perform hwork).2

/-- A job that is on its way to a stop stays on it, whatever happens. -/
theorem rule_lettingGo (n : Nat) : Rule fun _ _ e => e.LettingGo n :=
  .of_same (fun _ _ _ _ h hsame => h.same hsame) fun _ _ _ _ h hbrings => h.brings hbrings

/-- What becomes of an attempt whose request was called off. -/
inductive CalledOff (config : Config) (e : JobEntry) (key : CorrelationKey) : JobEntry → Prop
  /-- The worker sees that a stop is asked for. -/
  | stopped (hstop : e.stop = true) : CalledOff config e key (e.beginStop config)
  /-- It sees no stop, but one has claimed the phase. -/
  | claimed (hstop : e.stop ≠ true) (hphase : e.phase = .stopRequested) :
    CalledOff config e key
      (({ e with job := e.job.noting (.cancelled key) .failed }).beginStop config)
  | failed {policy : RetryPolicy} {job : Job} (hstop : e.stop ≠ true)
    (hjob : job = (e.job.noting (.cancelled key) .failed).endedBy (some (.cancelled key))) :
    CalledOff config e key
      { e with phase := .finished, job, stage := .moving .stepExhausted policy 0 }

/-- This is what becomes of an attempt that ends with a cancellation. -/
theorem calledOff_attemptFailed (e : JobEntry) (config : Config) (run : StepRun)
    (key : CorrelationKey) :
    CalledOff config e key (e.attemptFailed config run (.cancelled key)) := by
  rcases e.attemptFailed_cases config run (.cancelled key) with
    ⟨hstop, hc⟩ | ⟨hstop, -, hc⟩ | ⟨-, -, hretry, -⟩
  · rw [hc]
    exact .stopped hstop
  · rw [hc]
    rcases conclude_cases { e with job := e.job.noting (.cancelled key) .failed } config
      (Fault.cancelled key).ending (some (.cancelled key)) with ⟨hphase, hc'⟩ | ⟨-, hc'⟩
    · rw [hc']
      exact .claimed hstop hphase
    · rw [hc']
      exact .failed hstop rfl
  · cases hretry

/-- The program that is left of the attempt that a worker is at, when nothing keeps it waiting. -/
def Left (e : JobEntry) (f : Fleet) (run : StepRun)
    (program : Program Stepping (Except Fault Unit)) : Prop :=
  e.stage = .acting run program ∨
    ∃ suspension, e.stage = .waiting run suspension ∧ f.resume? suspension = some program

private theorem Left.trying (h : e.Left f run program) : e.stage.Trying := by
  rcases h with hstage | ⟨suspension, hstage, -⟩ <;> rw [hstage] <;> trivial

/-- A worker that is asked to stop gives the attempt up, and it goes on with it otherwise. -/
theorem Left.work (h : e.Left f run program) (id : JobId) :
    e.work f id = if e.stop then .change (e.beginStop f.config) else .perform run program := by
  rcases h with hstage | ⟨suspension, hstage, hresume⟩
  · rw [JobEntry.work, hstage]
  · rw [JobEntry.work, hstage]
    dsimp only
    rw [hresume]

/-- The worker of an attempt whose request was called off, once it has looked. -/
theorem Left.calledOff (h : e.Left f run program) {key : CorrelationKey}
    (hcancelled : (f.run id e.job.target program).1 = .inr (.error (.cancelled key)))
    (hbrings : (e.work f id).Brings f id e e') :
    ∃ e₁, e.MayBeAsked e₁ ∧ CalledOff f.config e₁ key e' := by
  rw [h.work] at hbrings
  split at hbrings
  · next hstop =>
    obtain rfl := hbrings
    exact ⟨e, Or.inl rfl, .stopped hstop⟩
  · obtain ⟨e₁, ha, rfl⟩ := hbrings
    rw [hcancelled]
    exact ⟨e₁, ha, calledOff_attemptFailed e₁ f.config run key⟩

private theorem Standing.trying (h : e.Standing) (htrying : e.stage.Trying) : e.Underway := by
  have hbefits := h.befits
  cases hstage : e.stage with
  | acting | waiting | succeeding =>
    rw [hstage] at hbefits
    exact h.underway hbefits
  | _ =>
    rw [hstage] at htrying
    exact htrying.elim

end JobEntry

namespace Fleet

variable {f g : Fleet} {id : JobId} {e e' : JobEntry} {n : Nat}

/-- A store that takes every record. -/
def Undisturbed (f : Fleet) : Prop := f.transactions.store.outages = []

/-- The same fleet with such a store. -/
def undisturbed (f : Fleet) : Fleet :=
  { f with transactions := { f.transactions with
      store := { f.transactions.store with outages := [] } } }

private theorem persist_of_undisturbed (hf : f.Undisturbed) (job : Job) :
    (f.persist job).1 = .ok () ∧ (f.persist job).2.2.Undisturbed := by
  rw [Undisturbed] at hf
  unfold persist
  dsimp only [Transactions.begin, Transactions.conclude, Transactions.commit]
  unfold UnreliableStore.commit UnreliableStore.judge
  dsimp only
  rw [hf]
  exact ⟨rfl, rfl⟩

/-- A move that befits the job is made in one turn. -/
theorem moved_of_undisturbed (hf : f.Undisturbed) (he : f.jobs.get? id = some e)
    (hid : e.job.id = id) {event : JobEvent} {policy : RetryPolicy} {tries : UInt32}
    {state : JobState} (hstage : e.stage = .moving event policy tries)
    (hnext : e.job.state.next? event = some state) :
    ∃ job, job = f.stamped { e.job with state } ∧ (f.workerTurn id).fleet.Undisturbed ∧
      (f.workerTurn id).fleet.jobs.get? id =
        some ({ e with snapshot := job, job }.moved f.config event) := by
  have hworks := workerTurn_works he hid
  have hwork : e.work f id = .record { e.job with state } (event = .stopRequested)
      (JobEntry.afterMove f.config f.now event policy tries e.job.state) := by
    rw [JobEntry.work, hstage]
    dsimp only
    rw [hnext]
  obtain ⟨hok, hstill⟩ := persist_of_undisturbed hf { e.job with state }
  rw [hwork] at hworks
  generalize (f.workerTurn id).fleet = g at hworks
  cases hworks with
  | refused fault m agenda hstore hpersist =>
    rw [hpersist] at hok
    cases hok
  | taken tx m agenda hstore hpersist =>
    rw [hpersist] at hstill
    exact ⟨_, rfl, hstill, Table.get?_set_self ..⟩

/-- The only end of the job that is recorded from now on is that of a stop. -/
def EndsStopped (id : JobId) (f : Fleet) : Prop :=
  ∀ g, LooseRun f g → g.submitted < 2 ^ 64 →
    ∃ e, g.jobs.get? id = some e ∧ (e.snapshot.isTerminal = true → e.snapshot.state = .stopped)

/-- The job is let go at its step number `n`: that step is never recorded as failed, the only end
that is recorded is that of a stop, and two records bring it about. -/
structure LetsGo (id : JobId) (n : Nat) (f : Fleet) : Prop where
  ends : EndsStopped id f
  unharmed : ∀ g, LooseRun f g → g.submitted < 2 ^ 64 →
    ∃ e, g.jobs.get? id = some e ∧ e.snapshot.Unharmed n
  settles : ∃ e, (f.undisturbed.turns [.worker id, .worker id]).jobs.get? id = some e ∧
    e.snapshot.state = .stopped

/-- A job whose phase a stop has claimed ends as stopped, if it ends. -/
theorem Rooted.endsStopped (hf : f.Rooted) (he : f.jobs.get? id = some e) (h : e.Standing)
    (hphase : e.phase = .stopRequested) : EndsStopped id f := by
  intro g hrun hlt
  have hsustains := hrun.sustains JobEntry.fineLaw_yields.rule hf he ⟨h, h.yields hphase⟩ hlt
  obtain ⟨e', he', hstanding, hyields⟩ := hsustains.entry
  refine ⟨e', he', fun hterminal => ?_⟩
  have hstate := hyields.2
  rw [← hstanding.snapshot] at hstate
  change e'.snapshot.state.isTerminal = true at hterminal
  revert hterminal hstate
  cases e'.snapshot.state <;> simp [JobState.isTerminal, JobState.isOrdinaryEnd]

/-- Two records settle a stop. -/
theorem settles_of_beginStop {config : Config} (he : f.jobs.get? id = some (e.beginStop config))
    (hid : e.job.id = id) (hstate : e.job.state = .running) :
    ∃ e', (f.undisturbed.turns [.worker id, .worker id]).jobs.get? id = some e' ∧
      e'.snapshot.state = .stopped := by
  have hundisturbed : f.undisturbed.Undisturbed := rfl
  have hrunning : (e.beginStop config).job.state.next? .stopRequested = some .stopping := by
    change e.job.state.next? .stopRequested = some .stopping
    rw [hstate]
    rfl
  have he₀ : f.undisturbed.jobs.get? id = some (e.beginStop config) := he
  obtain ⟨job, rfl, hundisturbed', he'⟩ :=
    moved_of_undisturbed hundisturbed he₀ hid rfl hrunning
  have hstopping : JobState.stopping.next? .stopSettled = some .stopped := rfl
  obtain ⟨job, rfl, -, he''⟩ := moved_of_undisturbed hundisturbed' he' hid rfl hstopping
  exact ⟨_, he'', rfl⟩

/-- A job that begins to stop with no failed step is let go. -/
theorem Rooted.letsGo (hf : f.Rooted) {config : Config}
    (he : f.jobs.get? id = some (e.beginStop config)) (h : e.Underway)
    (hphase : e.phase = .stopRequested) (hsnapshot : e.snapshot.Unharmed n)
    (hjob : e.job.Unharmed n) : LetsGo id n f where
  ends := hf.endsStopped he (h.beginStop hphase) hphase
  unharmed g hrun hlt := by
    have hletting : (e.beginStop config).LettingGo n := ⟨trivial, hsnapshot, hjob⟩
    have hsustains := hrun.sustains (JobEntry.rule_lettingGo n) hf he hletting hlt
    obtain ⟨e', he', hletting'⟩ := hsustains.entry
    exact ⟨e', he', hletting'.snapshot⟩
  settles := settles_of_beginStop he (hf.ids id (e.beginStop config) he) h.state

/-- A record of the job as it stands can be made from any fleet. -/
theorem recorded_of_moving {event : JobEvent} {policy : RetryPolicy} {tries : UInt32}
    {state : JobState} (he : f.jobs.get? id = some e) (hid : e.job.id = id)
    (hstage : e.stage = .moving event policy tries) (hnext : e.job.state.next? event = some state) :
    ∃ g e', LooseRun f g ∧ g.submitted = f.submitted ∧ g.jobs.get? id = some e' ∧
      e'.snapshot.steps = e.job.steps ∧ e'.snapshot.state = state := by
  have he₀ : f.undisturbed.jobs.get? id = some e := he
  have hundisturbed : f.undisturbed.Undisturbed := rfl
  obtain ⟨job, rfl, -, he'⟩ := moved_of_undisturbed hundisturbed he₀ hid hstage hnext
  have hrun : LooseRun f (f.undisturbed.workerTurn id).fleet :=
    (Relation.ReflTransGen.single (.step (.disturb []))).tail (.step (.turn (.worker id)))
  have hsubmitted : (f.undisturbed.workerTurn id).fleet.submitted = f.submitted :=
    (workerTurn_works he₀ hid).workerFrame.submitted
  refine ⟨_, _, hrun, hsubmitted, he', ?_, ?_⟩
  · rw [(JobEntry.preserved_moved _ _ _).snapshot]
    rfl
  · rw [(JobEntry.preserved_moved _ _ _).snapshot]
    rfl

/-- What the worker makes of a fault that says that a request was called off decides what becomes of
the job. -/
theorem Rooted.lets_go_iff (hf : f.Rooted) (hlt : f.submitted < 2 ^ 64)
    (he' : f.jobs.get? id = some e') (h : e.Underway) (hbegun : e.Begun) {config : Config}
    {key : CorrelationKey} (hcalled : e.CalledOff config key e') :
    (LetsGo id e.job.currentStep f ↔ e'.stop = true) ∧
      (EndsStopped id f ↔ e'.phase = .stopRequested) := by
  have hid := hf.ids id e' he'
  obtain ⟨s, hs, hstatus⟩ := hbegun.running
  cases hcalled with
  | stopped hstop =>
    have hphase := h.stop hstop
    have hunharmed : e.job.Unharmed e.job.currentStep := by
      intro t ht hfailed
      cases Option.some.inj (hs.symm.trans ht)
      cases hstatus.symm.trans hfailed
    have hlets := hf.letsGo he' h hphase (hbegun.recorded ▸ hunharmed) hunharmed
    exact ⟨⟨fun _ => hstop, fun _ => hlets⟩, ⟨fun _ => hphase, fun _ => hlets.ends⟩⟩
  | claimed hstop hphase =>
    let job : Job := e.job.noting (.cancelled key) .failed
    have hnoted : JobEntry.Underway { e with job } := { h with }
    have hends := hf.endsStopped he' (hnoted.beginStop hphase) hphase
    have hnext : job.state.next? .stopRequested = some .stopping := by
      rw [hnoted.state]
      rfl
    obtain ⟨g, e'', hrun, hsame, he'', hsteps, -⟩ := recorded_of_moving he' hid rfl hnext
    refine ⟨⟨fun hlets => ?_, fun hstop' => (hstop hstop').elim⟩,
      ⟨fun _ => hphase, fun _ => hends⟩⟩
    obtain ⟨e₃, he₃, hunharmed⟩ := hlets.unharmed g hrun (hsame ▸ hlt)
    cases he₃.symm.trans he''
    exact (Job.not_unharmed_noting hs _ (hunharmed.of_steps_eq hsteps.symm)).elim
  | @failed policy job hstop hjob =>
    have hnext : job.state.next? .stepExhausted = some .stepFailed := by
      have hstate : job.state = .running := by rw [hjob]; exact h.state
      rw [hstate]
      rfl
    obtain ⟨g, e'', hrun, hsame, he'', -, hstate⟩ := recorded_of_moving he' hid rfl hnext
    have hends : ¬EndsStopped id f := by
      intro hends
      obtain ⟨e₃, he₃, hstopped⟩ := hends g hrun (hsame ▸ hlt)
      cases he₃.symm.trans he''
      have hterminal : e''.snapshot.isTerminal = true := by
        rw [Job.isTerminal, hstate]
        rfl
      cases hstate.symm.trans (hstopped hterminal)
    exact ⟨⟨fun hlets => (hends hlets.ends).elim, fun hstop' => (hstop hstop').elim⟩,
      ⟨fun h => (hends h).elim, nofun⟩⟩

/-- An attempt whose request is called off lets the job go, without harm to the step, exactly if the
worker sees a stop, and it settles the job as stopped exactly if a stop has claimed its phase. A
stop that was requested earlier makes the worker give the attempt up instead, with the same
effect. -/
theorem cancelled_lets_go_iff {config : Config} {store : UnreliableStore} {registry : Registry}
    {run : StepRun} {program : Program Stepping (Except Fault Unit)} {key : CorrelationKey}
    (hrun : LooseRun (opened config store registry) f) (hlt : f.submitted < 2 ^ 64)
    (he : f.jobs.get? id = some e) (hleft : e.Left f run program)
    (hcancelled : (f.run id e.job.target program).1 = .inr (.error (.cancelled key))) :
    ∃ e', (f.workerTurn id).fleet.jobs.get? id = some e' ∧
      (LetsGo id e.job.currentStep (f.workerTurn id).fleet ↔ e'.stop = true) ∧
      (EndsStopped id (f.workerTurn id).fleet ↔ e'.phase = .stopRequested) := by
  have hroot := rooted_opened config store registry
  have hf := (hrun.steady hroot).rooted
  have hturn : Loose f (f.workerTurn id).fleet := .step (.turn (.worker id))
  have hworks := workerTurn_works he (hf.ids id e he)
  have hstanding : e.Standing :=
    hrun.obeys JobEntry.fineLaw_standing.rule (fun _ _ _ _ => JobEntry.standing_new rfl) he
  have hrecord : e.OnRecord :=
    hrun.obeys JobEntry.rule_onRecord (fun _ _ _ _ => JobEntry.onRecord_new _) he
  obtain ⟨e', he', hbrings⟩ := hworks.brings he
  obtain ⟨e₁, hasked, hcalled⟩ := hleft.calledOff hcancelled hbrings
  have hunderway := (hstanding.trying hleft.trying).mayBeAsked hasked
  have hbegun := (hrecord.same hasked.same).begun (by rw [hasked.same.stage]; exact hleft.trying)
  have hiff := ((hturn.leads hf).rooted hf).lets_go_iff (hworks.workerFrame.submitted ▸ hlt) he'
    hunderway hbegun hcalled
  rw [hasked.same.job] at hiff
  exact ⟨e', he', hiff⟩

/-- A fleet whose job waited for its device until its request was called off. -/
def cancelledFleet : Fleet := (askingFleet.cancel 1).2

/-- The same, after the job was asked to stop first. -/
def releasedFleet : Fleet := ((askingFleet.stop 1).2.cancel 1).2

private theorem looseRun_cancelledFleet : LooseRun openedOnce cancelledFleet :=
  (looseRun_of_run run_askingFleet).tail (.step (.cancel 1))

private theorem looseRun_releasedFleet : LooseRun openedOnce releasedFleet :=
  ((looseRun_of_run run_askingFleet).tail (.step (.stop 1))).tail (.step (.cancel 1))

/-- Without a stop the job is not let go and comes to another end, and with one it is let go. -/
theorem cancelled_lets_go_iff_cancelledFleet :
    (¬LetsGo 1 0 (cancelledFleet.workerTurn 1).fleet ∧
      ¬EndsStopped 1 (cancelledFleet.workerTurn 1).fleet) ∧
    LetsGo 1 0 (releasedFleet.workerTurn 1).fleet := by
  have hcancelled : ∃ e run program, cancelledFleet.jobs.get? 1 = some e ∧
      e.Left cancelledFleet run program ∧ e.job.currentStep = 0 ∧
      (cancelledFleet.run 1 e.job.target program).1 = .inr (.error (.cancelled 1)) :=
    ⟨_, _, _, rfl, Or.inr ⟨_, rfl, rfl⟩, rfl, rfl⟩
  have hreleased : ∃ e run program, releasedFleet.jobs.get? 1 = some e ∧
      e.Left releasedFleet run program ∧ e.job.currentStep = 0 ∧
      (releasedFleet.run 1 e.job.target program).1 = .inr (.error (.cancelled 1)) :=
    ⟨_, _, _, rfl, Or.inr ⟨_, rfl, rfl⟩, rfl, rfl⟩
  have hends : ∀ e, (cancelledFleet.workerTurn 1).fleet.jobs.get? 1 = some e →
      e.stop = false ∧ e.phase = .finished := by
    rintro e ⟨⟩
    exact ⟨rfl, rfl⟩
  have hstops : ∀ e, (releasedFleet.workerTurn 1).fleet.jobs.get? 1 = some e → e.stop = true := by
    rintro e ⟨⟩
    rfl
  obtain ⟨e, run, program, he, hleft, hzero, hfails⟩ := hcancelled
  obtain ⟨e₁, he₁, hlets, hsettles⟩ :=
    cancelled_lets_go_iff looseRun_cancelledFleet (by decide) he hleft hfails
  obtain ⟨e', run', program', he', hleft', hzero', hfails'⟩ := hreleased
  obtain ⟨e₂, he₂, hlets', -⟩ :=
    cancelled_lets_go_iff looseRun_releasedFleet (by decide) he' hleft' hfails'
  rw [hzero] at hlets
  rw [hzero'] at hlets'
  obtain ⟨hstop, hphase⟩ := hends e₁ he₁
  refine ⟨⟨fun h => ?_, fun h => ?_⟩, hlets'.2 (hstops e₂ he₂)⟩
  · cases hstop.symm.trans (hlets.1 h)
  · cases hphase.symm.trans (hsettles.1 h)

/-- Nobody asked for a stop, an attempt ended because its request was called off, and this is
recorded as a failure of its step. -/
theorem cancelledFleet_fails :
    LooseRun openedOnce cancelledFleet ∧
    (∃ e run program, cancelledFleet.jobs.get? 1 = some e ∧ e.phase = .running ∧
      e.work cancelledFleet 1 = .perform run program ∧
      (cancelledFleet.run 1 e.job.target program).1 = .inr (.error (.cancelled 1))) ∧
    ∃ e, (cancelledFleet.turns (List.replicate 3 (.worker 1))).jobs.get? 1 = some e ∧
      e.done = true ∧ e.snapshot.state = .stepFailed ∧
      e.snapshot.current?.map JobStep.status = some .failed ∧
      e.snapshot.lastError = some "Request 1 was cancelled" :=
  ⟨looseRun_cancelledFleet, ⟨_, _, _, rfl, rfl, rfl, rfl⟩, _, rfl, rfl, rfl, rfl, by decide +kernel⟩

end Fleet

end Flotilla
