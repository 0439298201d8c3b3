import Flotilla.Fleet.Task
import Flotilla.Proofs.Fleet.Programs

/-!
# What a worker does in a turn

A turn of a worker is one of three kinds of work (`Work`): it changes what is known of the job and
nothing else, it tries to record the job and goes on by whether the store took the record, or it
lets a step's program run. The stage decides which (`JobEntry.work`), and what the turn does to the
fleet follows from the work alone (`Fleet.workerTurn_works`).
-/

namespace Flotilla

/-- What a worker does in one turn. -/
inductive Work where
  /-- Change what is known of the job. -/
  | change (e : JobEntry)
  /-- Try to record a job, and call off its requests when that is done and asked for. How the entry
  goes on depends on what the store said and on the job with the time of the record. -/
  | record (job : Job) (cancels : Bool) (next : Except Fault Unit → Job → JobEntry → JobEntry)
  /-- Run a program of a step. -/
  | perform (run : StepRun) (program : Program Stepping (Except Fault Unit))

namespace JobEntry

/-- The fault of a move that the state of the job does not allow. -/
def misplaced (e : JobEntry) (event : JobEvent) : Fault :=
  .invariant ("job " ++ Text.decimal e.job.id.toNat ++ " cannot take " ++ event.name ++
    " in state " ++ e.job.state.name)

/-- How an entry goes on after a move of its job was to be recorded; `state` is the state that the
job goes back to when it could not. -/
def afterMove (config : Config) (now : Nat) (event : JobEvent) (policy : RetryPolicy)
    (tries : UInt32) (state : JobState) : Except Fault Unit → Job → JobEntry → JobEntry
  | .ok (), job, e => { e with job }.moved config event
  | .error fault, job, e =>
    { e with job := { job with state } }.moveRefused now event policy (tries + 1) fault

/-- How an entry goes on after the start of an attempt was to be recorded. -/
def afterStart (config : Config) (run : StepRun) :
    Except Fault Unit → Job → JobEntry → JobEntry
  | .ok (), job, e =>
    let e := { e with job }
    e.goTo (.acting run (run.definition.behaviour (e.context config run)))
  | .error fault, job, e => { e with job }.attemptFailed config run fault

/-- How an entry goes on after a success was to be recorded; `before` is the job without it. -/
def afterSuccess (config : Config) (run : StepRun) (before : Job) :
    Except Fault Unit → Job → JobEntry → JobEntry
  | .ok (), job, e => { e with job }.goTo .choosing
  | .error fault, job, e =>
    { e with job := { before with updatedAtMs := job.updatedAtMs } }.attemptFailed config run fault

/-- How an entry goes on after a program has run. -/
def afterRun (config : Config) (run : StepRun) :
    Suspension (Except Fault Unit) ⊕ Except Fault Unit → JobEntry → JobEntry
  | .inl suspension, e => e.goTo (.waiting run suspension)
  | .inr (.ok ()), e => e.goTo (.succeeding run)
  | .inr (.error fault), e => e.attemptFailed config run fault

/-- The entry after its worker has left. -/
def left (e : JobEntry) (result : Except Fault Unit) : JobEntry :=
  { e with phase := .finished, done := true, stage := .gone, archived := result.isOk }

/-- The work that the stage of a worker asks for. -/
def work (e : JobEntry) (f : Fleet) (id : JobId) : Work :=
  match e.stage with
  | .queued =>
    if (f.permits.acquire id).1 then
      .change ({ e with phase := .running }.goTo (.moving .start f.config.defaultRetry 0))
    else .change e
  | .moving event policy tries =>
    match e.job.state.next? event with
    | none => .change (e.moveRefused f.now event policy (tries + 1) (e.misplaced event))
    | some state => .record { e.job with state } (event = .stopRequested)
        (afterMove f.config f.now event policy tries e.job.state)
  | .resting event policy tries wakeAt =>
    if wakeAt ≤ f.now then .change (e.goTo (.moving event policy tries)) else .change e
  | .choosing => .change (e.choose f.config f.registry)
  | .starting run => .record e.job.beginAttempt false (afterStart f.config run)
  | .acting run program =>
    if e.stop then .change (e.beginStop f.config) else .perform run program
  | .waiting run suspension =>
    if e.stop then .change (e.beginStop f.config)
    else
      match f.resume? suspension with
      | some program => .perform run program
      | none => .change e
  | .succeeding run => .record e.job.completeStep false (afterSuccess f.config run e.job)
  | .pausing run => .record e.job false fun _ job e => { e with job }.backOff f.now run
  | .backingOff run wakeAt =>
    if e.stop then .change (e.beginStop f.config)
    else if wakeAt ≤ f.now then .change (e.goTo (.starting run)) else .change e
  | .leaving result => .change (e.left result)
  | .gone => .change e

variable {e : JobEntry} {f : Fleet} {id : JobId}

/-- A worker records a move, the start of an attempt, a success, or a pause after a failure. -/
theorem record_cases {job : Job} {cancels : Bool}
    {next : Except Fault Unit → Job → JobEntry → JobEntry}
    (h : e.work f id = .record job cancels next) :
    (∃ event policy tries state, e.stage = .moving event policy tries ∧
      e.job.state.next? event = some state ∧ job = { e.job with state } ∧
      cancels = decide (event = .stopRequested) ∧
      next = afterMove f.config f.now event policy tries e.job.state) ∨
    (∃ run, e.stage = .starting run ∧ job = e.job.beginAttempt ∧ cancels = false ∧
      next = afterStart f.config run) ∨
    (∃ run, e.stage = .succeeding run ∧ job = e.job.completeStep ∧ cancels = false ∧
      next = afterSuccess f.config run e.job) ∨
    (∃ run, e.stage = .pausing run ∧ job = e.job ∧ cancels = false ∧
      next = fun _ job e => { e with job }.backOff f.now run) := by
  unfold work at h
  cases hstage : e.stage with
  | moving event policy tries =>
    rw [hstage] at h
    dsimp only at h
    split at h
    · cases h
    · next state hnext =>
      cases h
      exact Or.inl ⟨event, policy, tries, state, rfl, hnext, rfl, rfl, rfl⟩
  | starting run =>
    rw [hstage] at h
    cases h
    exact Or.inr (Or.inl ⟨run, rfl, rfl, rfl, rfl⟩)
  | succeeding run =>
    rw [hstage] at h
    cases h
    exact Or.inr (Or.inr (Or.inl ⟨run, rfl, rfl, rfl, rfl⟩))
  | pausing run =>
    rw [hstage] at h
    cases h
    exact Or.inr (Or.inr (Or.inr ⟨run, rfl, rfl, rfl, rfl⟩))
  | queued | resting | acting =>
    rw [hstage] at h
    dsimp only at h
    split at h <;> cases h
  | waiting | backingOff =>
    rw [hstage] at h
    dsimp only at h
    split at h
    · cases h
    · split at h <;> cases h
  | choosing | leaving | gone =>
    rw [hstage] at h
    cases h

/-- A worker runs a program at the beginning of an attempt, or when it no longer has to wait. -/
theorem perform_cases {run : StepRun} {program : Program Stepping (Except Fault Unit)}
    (h : e.work f id = .perform run program) :
    e.stop ≠ true ∧ (e.stage = .acting run program ∨
      ∃ suspension, e.stage = .waiting run suspension ∧ f.resume? suspension = some program) := by
  unfold work at h
  cases hstage : e.stage with
  | acting run' program' =>
    rw [hstage] at h
    dsimp only at h
    split at h
    · cases h
    · next hstop =>
      cases h
      exact ⟨hstop, Or.inl rfl⟩
  | waiting run' suspension =>
    rw [hstage] at h
    dsimp only at h
    split at h
    · cases h
    · next hstop =>
      split at h
      · next hresume =>
        cases h
        exact ⟨hstop, Or.inr ⟨suspension, rfl, hresume⟩⟩
      · cases h
  | queued | moving | resting =>
    rw [hstage] at h
    dsimp only at h
    split at h <;> cases h
  | backingOff =>
    rw [hstage] at h
    dsimp only at h
    split at h
    · cases h
    · split at h <;> cases h
  | starting | succeeding | pausing | choosing | leaving | gone =>
    rw [hstage] at h
    cases h

/-- What a worker makes of the entry of its job when it neither records anything nor runs a
program. -/
inductive Changes (e : JobEntry) (f : Fleet) : JobEntry → Prop
  /-- It has to wait, or has left. -/
  | stays (hidle : ∀ run, e.stage ≠ .succeeding run)
    (hwaits : ∀ run program, e.stage ≠ .acting run program) : Changes e f e
  | admitted (hstage : e.stage = .queued) :
    Changes e f ({ e with phase := .running }.goTo (.moving .start f.config.defaultRetry 0))
  | misplaced {event : JobEvent} {policy : RetryPolicy} {tries : UInt32}
    (hstage : e.stage = .moving event policy tries) (hnext : e.job.state.next? event = none) :
    Changes e f (e.moveRefused f.now event policy (tries + 1) (e.misplaced event))
  | rested {event : JobEvent} {policy : RetryPolicy} {tries : UInt32} {wakeAt : Nat}
    (hstage : e.stage = .resting event policy tries wakeAt) :
    Changes e f (e.goTo (.moving event policy tries))
  | chose (hstage : e.stage = .choosing) : Changes e f (e.choose f.config f.registry)
  | stopped (hstop : e.stop = true) (hheeds : e.heedsStop = true) :
    Changes e f (e.beginStop f.config)
  | resumed {run : StepRun} {wakeAt : Nat} (hstage : e.stage = .backingOff run wakeAt)
    (htime : wakeAt ≤ f.now) : Changes e f (e.goTo (.starting run))
  | left {result : Except Fault Unit} (hstage : e.stage = .leaving result) :
    Changes e f (e.left result)

/-- Work that neither records nor runs makes of an entry what such work can. -/
theorem changes_of_work {e' : JobEntry} (h : e.work f id = .change e') : e.Changes f e' := by
  unfold work at h
  cases hstage : e.stage with
  | queued =>
    rw [hstage] at h
    dsimp only at h
    split at h <;> cases h
    · exact .admitted hstage
    · exact .stays (fun _ => hstage ▸ nofun) fun _ _ => hstage ▸ nofun
  | moving event policy tries =>
    rw [hstage] at h
    dsimp only at h
    split at h <;> cases h
    next hnext => exact .misplaced hstage hnext
  | resting event policy tries wakeAt =>
    rw [hstage] at h
    dsimp only at h
    split at h <;> cases h
    · exact .rested hstage
    · exact .stays (fun _ => hstage ▸ nofun) fun _ _ => hstage ▸ nofun
  | choosing =>
    rw [hstage] at h
    cases h
    exact .chose hstage
  | acting run program =>
    rw [hstage] at h
    dsimp only at h
    split at h <;> cases h
    next hstop => exact .stopped hstop (by rw [heedsStop, hstage])
  | waiting run suspension =>
    rw [hstage] at h
    dsimp only at h
    split at h
    · next hstop =>
      cases h
      exact .stopped hstop (by rw [heedsStop, hstage])
    · split at h <;> cases h
      exact .stays (fun _ => hstage ▸ nofun) fun _ _ => hstage ▸ nofun
  | backingOff run wakeAt =>
    rw [hstage] at h
    dsimp only at h
    split at h
    · next hstop =>
      cases h
      exact .stopped hstop (by rw [heedsStop, hstage])
    · split at h <;> cases h
      · next htime => exact .resumed hstage htime
      · exact .stays (fun _ => hstage ▸ nofun) fun _ _ => hstage ▸ nofun
  | leaving result =>
    rw [hstage] at h
    cases h
    exact .left hstage
  | gone =>
    rw [hstage] at h
    cases h
    exact .stays (fun _ => hstage ▸ nofun) fun _ _ => hstage ▸ nofun
  | starting | succeeding | pausing =>
    rw [hstage] at h
    cases h

end JobEntry

namespace Fleet

/-- The fleet that a turn ends with. -/
def Turn.fleet : Turn → Fleet
  | .goesOn f => f
  | .waits f => f

/-- The fleet after a record was taken, as far as the requests of the job go. -/
def settling (f : Fleet) (id : JobId) (cancels : Bool) : Correlator :=
  if cancels then (f.correlator.cancelOwnedBy id).2 else f.correlator

/-- What a turn that does this work makes of the fleet, the agenda and the permits aside. -/
inductive Works (f : Fleet) (id : JobId) (e : JobEntry) : Work → Fleet → Prop
  | change (e' : JobEntry) (agenda : Agenda) (permits : Permits) :
    Works f id e (.change e') { f with agenda, permits, jobs := f.jobs.set id e' }
  | refused {job : Job} {cancels : Bool}
      {next : Except Fault Unit → Job → JobEntry → JobEntry} (fault : Fault) (m : Transactions)
      (agenda : Agenda) (hstore : m.store.store = f.transactions.store.store)
      (hpersist : f.persist job = (.error fault, f.stamped job, { f with transactions := m })) :
    Works f id e (.record job cancels next)
      { f with
        agenda
        transactions := m
        jobs := f.jobs.set id (next (.error fault) (f.stamped job) e) }
  | taken {job : Job} {cancels : Bool}
      {next : Except Fault Unit → Job → JobEntry → JobEntry} (tx : Nat) (m : Transactions)
      (agenda : Agenda)
      (hstore : m.store.store = f.transactions.store.store.apply (recordOf (f.stamped job)))
      (hpersist : f.persist job =
        (.ok (), f.stamped job, { f.recorded tx (f.stamped job) with transactions := m })) :
    Works f id e (.record job cancels next)
      { f.recorded tx (f.stamped job) with
        agenda
        transactions := m
        correlator := f.settling id cancels
        jobs := f.jobs.set id
          (next (.ok ()) (f.stamped job) { e with snapshot := f.stamped job }) }
  | performed {run : StepRun} {program : Program Stepping (Except Fault Unit)}
      (result : Suspension (Except Fault Unit) ⊕ Except Fault Unit) (g : Fleet) (e' : JobEntry)
      (before agenda : Agenda)
      (hrun : { f with agenda := before }.run id e.job.target program = (result, g))
      (hentry : g.jobs.get? id = some e') :
    Works f id e (.perform run program)
      { g with agenda, jobs := g.jobs.set id (e'.afterRun g.config run result) }

variable {f : Fleet} {id : JobId} {e : JobEntry}

/-- Changing the entry of a job that is there. -/
theorem fleet_goOn (he : f.jobs.get? id = some e) (change : JobEntry → JobEntry) :
    (f.goOn id change).fleet = { f with jobs := f.jobs.set id (change e) } := by
  rw [goOn, Turn.fleet, modifyJob, Table.modify_of_get? he]

/-- A worker that goes on at once changes its entry. -/
theorem works_goOn (he : f.jobs.get? id = some e) (agenda : Agenda) (permits : Permits)
    (change : JobEntry → JobEntry) : f.Works id e (.change (change e))
      (goOn { f with agenda, permits } id change).fleet := by
  have hfleet := fleet_goOn (f := { f with agenda, permits }) he change
  rw [hfleet]
  exact .change _ agenda permits

private theorem works_rest (he : f.jobs.get? id = some e) (agenda : Agenda) (permits : Permits) :
    f.Works id e (.change e) { f with agenda, permits } := by
  have hworks := @Works.change f id e e agenda permits
  rwa [Table.set_of_get? he] at hworks

/-- A worker that sleeps changes its entry when the time has come. -/
theorem works_sleepUntil (he : f.jobs.get? id = some e) (wakeAt : Nat)
    (change : JobEntry → JobEntry) :
    f.Works id e (if wakeAt ≤ f.now then .change (change e) else .change e)
      (f.sleepUntil id wakeAt change).fleet := by
  rw [sleepUntil]
  split
  · exact works_goOn he (f.agenda.disarm (.worker id)) f.permits change
  · exact works_rest he (f.agenda.arm (.worker id) wakeAt) f.permits

/-- Trying to record the job, and going on as the store says. -/
theorem works_persist (he : f.jobs.get? id = some e) (job : Job) (hid : job.id = id)
    {cancels : Bool} {next : Except Fault Unit → Job → JobEntry → JobEntry} {turn : Turn}
    (herror : ∀ fault job' g, f.persist job = (.error fault, job', g) → g.config = f.config →
      g.now = f.now → turn = goOn g id (next (.error fault) job'))
    (hok : ∀ job' g, f.persist job = (.ok (), job', g) → g.config = f.config → g.now = f.now →
      turn = goOn (if cancels then (g.cancelOwnedBy id).2 else g) id (next (.ok ()) job')) :
    f.Works id e (.record job cancels next) turn.fleet := by
  rcases f.persist_cases job with ⟨fault, m, hpersist, hm⟩ | ⟨tx, m, hpersist, hm⟩
  · let q : Fleet := { f with transactions := m }
    have hfleet := fleet_goOn (f := q) he (next (.error fault) (f.stamped job))
    rw [herror fault (f.stamped job) q hpersist rfl rfl, hfleet]
    exact .refused fault m f.agenda hm hpersist
  · let p : Fleet := { f.recorded tx (f.stamped job) with transactions := m }
    have hsnapshot : p.jobs = f.jobs.set id { e with snapshot := f.stamped job } := by
      change f.jobs.modify job.id (fun e => { e with snapshot := f.stamped job }) = _
      rw [hid, Table.modify_of_get? he]
    have hentry : p.jobs.get? id = some { e with snapshot := f.stamped job } := by
      rw [hsnapshot, Table.get?_set_self]
    have hcancel : ∃ agenda, (if cancels then (p.cancelOwnedBy id).2 else p) =
        { p with agenda, correlator := f.settling id cancels } := by
      cases cancels with
      | false => exact ⟨p.agenda, rfl⟩
      | true => exact p.setCorrelator_eq _
    obtain ⟨agenda, hq⟩ := hcancel
    refine cast (congrArg (f.Works id e _) ?_) (Works.taken tx m agenda hm hpersist)
    rw [hok (f.stamped job) p hpersist rfl rfl, hq]
    refine Eq.trans ?_ (fleet_goOn (f := { p with agenda, correlator := _ }) hentry _).symm
    dsimp only
    rw [hsnapshot, Table.set_set]

/-- Letting a program run. -/
theorem works_act (he : f.jobs.get? id = some e) (agenda : Agenda) (run : StepRun)
    (program : Program Stepping (Except Fault Unit)) :
    f.Works id e (.perform run program) (act { f with agenda } id e run program).fleet := by
  have hran := ran_run id e.job.target program { f with agenda }
  cases hrun : ({ f with agenda } : Fleet).run id e.job.target program with
  | mk result g =>
    rw [hrun] at hran
    obtain ⟨e', he', -⟩ := hran.entry e he
    have hmodify (change : JobEntry → JobEntry) :
        g.modifyJob id change = { g with jobs := g.jobs.set id (change e') } := by
      rw [modifyJob, Table.modify_of_get? he']
    have hworks (after : Agenda) :=
      @Works.performed f id e run program result g e' agenda after hrun he'
    rw [act, hrun]
    cases result with
    | inl suspension =>
      dsimp only
      rw [hmodify]
      cases suspension with
      | timer wakeAt next => exact hworks (g.agenda.arm (.worker id) wakeAt)
      | reply key next => exact hworks g.agenda
    | inr result =>
      cases result with
      | ok =>
        dsimp only
        rw [fleet_goOn he']
        exact hworks g.agenda
      | error fault =>
        dsimp only
        rw [fleet_goOn he']
        exact hworks g.agenda

/-- Recording a move. -/
theorem works_move (he : f.jobs.get? id = some e) (hid : e.job.id = id) {event : JobEvent}
    {policy : RetryPolicy} {tries : UInt32} (hstage : e.stage = .moving event policy tries) :
    f.Works id e (e.work f id) (f.move id e event policy tries).fleet := by
  rw [JobEntry.work, hstage, move]
  dsimp only
  cases e.job.state.next? event with
  | none =>
    exact works_goOn he f.agenda f.permits fun e' =>
      e'.moveRefused f.now event policy (tries + 1) (e.misplaced event)
  | some state =>
    refine works_persist he { e.job with state } hid ?_ ?_
    · intro fault job g hpersist hconfig hnow
      dsimp only
      rw [hpersist]
      dsimp only
      rw [hnow]
      rfl
    · intro job g hpersist hconfig hnow
      dsimp only
      rw [hpersist]
      dsimp only
      by_cases hevent : event = .stopRequested
      · obtain ⟨agenda, hcancel⟩ := g.setCorrelator_eq (g.correlator.cancelOwnedBy id).2
        have hconfig' : (g.cancelOwnedBy id).2.config = f.config :=
          (congrArg Fleet.config hcancel).trans hconfig
        rw [if_pos hevent, if_pos (decide_eq_true hevent), hconfig']
        rfl
      · rw [if_neg hevent, if_neg (by simpa using hevent), hconfig]
        rfl

/-- Recording the start of an attempt. -/
theorem works_starting (he : f.jobs.get? id = some e) (hid : e.job.id = id) {run : StepRun}
    (hstage : e.stage = .starting run) :
    f.Works id e (e.work f id) (f.workerTurn id).fleet := by
  rw [JobEntry.work, workerTurn, he]
  dsimp only
  rw [hstage]
  refine works_persist he e.job.beginAttempt hid ?_ ?_
  · intro fault job g hpersist hconfig _
    dsimp only
    rw [hpersist]
    dsimp only
    rw [hconfig]
    rfl
  · intro job g hpersist hconfig _
    dsimp only
    rw [hpersist]
    dsimp only
    rw [hconfig]
    rfl

/-- Recording a success. -/
theorem works_succeeding (he : f.jobs.get? id = some e) (hid : e.job.id = id) {run : StepRun}
    (hstage : e.stage = .succeeding run) :
    f.Works id e (e.work f id) (f.workerTurn id).fleet := by
  rw [JobEntry.work, workerTurn, he]
  dsimp only
  rw [hstage]
  refine works_persist he e.job.completeStep hid ?_ ?_
  · intro fault job g hpersist hconfig _
    dsimp only
    rw [hpersist]
    dsimp only
    rw [hconfig]
    rfl
  · intro job g hpersist _ _
    dsimp only
    rw [hpersist]
    rfl

/-- Recording that a step is to be tried again: what the store says does not matter. -/
theorem works_pausing (he : f.jobs.get? id = some e) (hid : e.job.id = id) {run : StepRun}
    (hstage : e.stage = .pausing run) :
    f.Works id e (e.work f id) (f.workerTurn id).fleet := by
  rw [JobEntry.work, workerTurn, he]
  dsimp only
  rw [hstage]
  refine works_persist he e.job hid ?_ ?_
  · intro fault job g hpersist _ hnow
    dsimp only
    rw [hpersist]
    dsimp only
    rw [hnow]
  · intro job g hpersist _ hnow
    dsimp only
    rw [hpersist]
    dsimp only
    rw [hnow]
    rfl

/-- A worker that leaves hands its permit on. -/
theorem works_leave (he : f.jobs.get? id = some e) (result : Except Fault Unit) :
    f.Works id e (.change (e.left result)) (f.leave id result).fleet := by
  unfold leave
  generalize f.permits.release = r
  obtain ⟨next, permits⟩ := r
  cases result with
  | ok =>
    cases next with
    | none => exact works_goOn he f.agenda permits fun e => e.left (.ok ())
    | some job =>
      exact works_goOn he (f.agenda.wake (.worker job)) permits fun e => e.left (.ok ())
  | error fault =>
    cases next with
    | none => exact works_goOn he f.agenda permits fun e => e.left (.error fault)
    | some job =>
      exact works_goOn he (f.agenda.wake (.worker job)) permits fun e => e.left (.error fault)

/-- A turn of a worker does the work that its stage asks for. -/
theorem workerTurn_works (he : f.jobs.get? id = some e) (hid : e.job.id = id) :
    f.Works id e (e.work f id) (f.workerTurn id).fleet := by
  have hgoOn (agenda : Agenda) := works_goOn he agenda f.permits
  cases hstage : e.stage with
  | starting run => exact works_starting he hid hstage
  | succeeding run => exact works_succeeding he hid hstage
  | pausing run => exact works_pausing he hid hstage
  | moving event policy tries =>
    rw [workerTurn, he]
    dsimp only
    rw [hstage]
    exact works_move he hid hstage
  | queued =>
    rw [JobEntry.work, workerTurn, he]
    dsimp only
    rw [hstage]
    dsimp only
    generalize f.permits.acquire id = r
    obtain ⟨got, permits⟩ := r
    cases got with
    | true =>
      exact works_goOn he f.agenda permits fun e =>
        { e with phase := .running }.goTo (.moving .start f.config.defaultRetry 0)
    | false => exact works_rest he f.agenda permits
  | resting event policy tries wakeAt =>
    rw [JobEntry.work, workerTurn, he]
    dsimp only
    rw [hstage]
    exact works_sleepUntil he wakeAt fun e => e.goTo (.moving event policy tries)
  | choosing =>
    rw [JobEntry.work, workerTurn, he]
    dsimp only
    rw [hstage]
    exact hgoOn f.agenda fun e => e.choose f.config f.registry
  | acting run program =>
    rw [JobEntry.work, workerTurn, he]
    dsimp only
    rw [hstage]
    dsimp only
    split
    · exact hgoOn f.agenda fun e => e.beginStop f.config
    · exact works_act he f.agenda run program
  | waiting run suspension =>
    rw [JobEntry.work, workerTurn, he]
    dsimp only
    rw [hstage]
    dsimp only
    split
    · exact hgoOn (f.agenda.disarm (.worker id)) fun e => e.beginStop f.config
    · cases f.resume? suspension with
      | none => exact works_rest he f.agenda f.permits
      | some program => exact works_act he (f.agenda.disarm (.worker id)) run program
  | backingOff run wakeAt =>
    rw [JobEntry.work, workerTurn, he]
    dsimp only
    rw [hstage]
    dsimp only
    split
    · exact hgoOn (f.agenda.disarm (.worker id)) fun e => e.beginStop f.config
    · exact works_sleepUntil he wakeAt fun e => e.goTo (.starting run)
  | leaving result =>
    rw [JobEntry.work, workerTurn, he]
    dsimp only
    rw [hstage]
    exact works_leave he result
  | gone =>
    rw [JobEntry.work, workerTurn, he]
    dsimp only
    rw [hstage]
    exact works_rest he f.agenda f.permits

/-- A job that was never submitted has no worker. -/
theorem workerTurn_of_none (h : f.jobs.get? id = none) : (f.workerTurn id).fleet = f := by
  rw [workerTurn, h]
  rfl

/-- What a turn of the worker of a job can do to the others. -/
structure WorkerFrame (id : JobId) (f g : Fleet) : Prop where
  registry : g.registry = f.registry
  submitted : g.submitted = f.submitted
  callers : g.callers = f.callers
  requests : Correlator.Serves (some id) f.correlator g.correlator
  others : ∀ job, job ≠ id → g.jobs.get? job = f.jobs.get? job

/-- Calling off the requests of a job makes none. -/
theorem serves_settling (f : Fleet) (id : JobId) (cancels : Bool) (owner : Option JobId) :
    Correlator.Serves owner f.correlator (f.settling id cancels) := by
  cases cancels with
  | false => exact .refl _ _
  | true => exact f.correlator.serves_cancelOwnedBy id

/-- The turn of a worker leaves everything that is not its job's alone. -/
theorem Works.workerFrame {work : Work} {g : Fleet} (h : f.Works id e work g) :
    WorkerFrame id f g := by
  have hset (t : Table JobId JobEntry) (e' : JobEntry) (job : JobId) (hjob : job ≠ id) :
      (t.set id e').get? job = t.get? job :=
    t.get?_set_ne e' (Ne.symm hjob)
  cases h with
  | change e' agenda permits => exact ⟨rfl, rfl, rfl, .refl _ _, hset _ _⟩
  | refused fault m agenda _ _ => exact ⟨rfl, rfl, rfl, .refl _ _, hset _ _⟩
  | taken tx m agenda _ _ => exact ⟨rfl, rfl, rfl, f.serves_settling id _ _, hset _ _⟩
  | @performed run program result g e' before agenda hrun hentry =>
    have hran := ran_run id e.job.target program { f with agenda := before }
    rw [hrun] at hran
    exact ⟨hran.registry, hran.submitted, hran.callers, hran.requests, fun job hjob =>
      (hset _ _ job hjob).trans (hran.others job hjob)⟩

end Fleet

end Flotilla
