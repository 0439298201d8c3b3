import Flotilla.Proofs.Fleet.Closing
import Flotilla.Proofs.Worker.Course

/-!
# Workers that follow the course of their job

What a worker hears of its attempts and of the moves of its job is laid down beforehand
(`Fleet.Hears`), and with it how the job ends (`Script.final`). At every stage the job is on the way
there: the steps behind it are as they will stay, the one whose turn it is has gone through some of
its attempts, and the course of the rest is what is left of the whole (`JobEntry.Follows`).
-/

namespace Flotilla

/-- A worker hears of its attempts what was laid down for them. -/
def Fleet.HearsAttempts (trials : Nat → Trial) (f : Fleet) (e : JobEntry) : Prop :=
  let trial := trials e.job.currentStep
  match e.stage with
  | .starting _ => (f.persist e.job.beginAttempt).1 = (trial (e.job.attempts.toNat + 1)).start
  | .acting _ program => ∀ result, (f.run e.job.id e.job.target program).1 = .inr result →
      result = (trial e.job.attempts.toNat).outcome
  | .waiting _ suspension => ∀ program result, f.resume? suspension = some program →
      (f.run e.job.id e.job.target program).1 = .inr result →
        result = (trial e.job.attempts.toNat).outcome
  | .succeeding _ => (f.persist e.job.completeStep).1 = (trial e.job.attempts.toNat).ending
  | .queued | .moving .. | .resting .. | .choosing | .pausing _ | .backingOff .. | .leaving _
  | .gone => True

/-- A worker hears what was laid down for its attempts and for the moves of its job. -/
def Fleet.Hears (trials : Nat → Trial) (moves : Refusals) (f : Fleet) (e : JobEntry) : Prop :=
  f.HearsAttempts trials e ∧ f.HearsMoves moves e

/-- A job, with all that decides what becomes of it. -/
structure Script where
  config : Config
  registry : Registry
  trials : Nat → Trial
  moves : Refusals
  id : JobId
  target : String
  steps : List JobStep
  /-- When it is submitted. -/
  submittedAtMs : UInt64

namespace Script

/-- The job as it is submitted. -/
def submitted (p : Script) : Job := .new p.id p.target p.steps p.submittedAtMs

/-- How it ends. -/
def course (p : Script) : Course := p.config.course p.registry p.trials 0 p.steps

/-- The job at its end. -/
def final (p : Script) : Job := p.course.job p.submitted

/-- The steps are fresh, and the store takes the start and the end of the job within the tries that
their policies allow. -/
structure Playable (p : Script) : Prop where
  fresh : ∀ s ∈ p.steps, s.Untouched
  start : ¬p.moves.RefusesFirst .start p.config.defaultRetry.budget
  finish : ¬p.moves.RefusesFirst p.course.event (p.config.closingPolicy p.final).budget

/-- The job gets to a point where these steps are behind it and those ahead of it. -/
structure Reaches (p : Script) (done ahead : List JobStep) : Prop where
  course : p.course = (p.config.course p.registry p.trials done.length ahead).behind done
  ahead : ∀ s ∈ ahead, s.Untouched

/-- A job is where `done` is behind it and `s` is its step, which was started `started` times; `k`
attempts at it are over, and another one may follow. -/
structure Tries (p : Script) (job : Job) (run : StepRun) (status : StepStatus) (started k : Nat)
    (done : List JobStep) (s : JobStep) (rest : List JobStep) : Prop where
  reaches : p.Reaches done (s :: rest)
  known : ∃ d, p.registry.lookup s.definition = .ok d
  policy : run.policy = p.config.policyFor s
  room : k < run.policy.budget
  goes : (p.trials done.length).Goes k
  job : job.bare =
    p.submitted.bare.along done (s.after (p.trials done.length) status started k :: rest)

/-- A job is about to start, or to end as laid down. -/
def Moves (p : Script) (job : Job) (event : JobEvent) (policy : RetryPolicy) : Prop :=
  (event = .start ∧ policy = p.config.defaultRetry ∧ job.bare = p.submitted.bare) ∨
  (event = p.course.event ∧ policy = p.config.closingPolicy p.final ∧ job.bare = p.final.bare)

/-- A job is as it was to be at its end, whenever that was recorded. -/
def Ended (p : Script) (job : Job) : Prop :=
  job = { p.final with updatedAtMs := job.updatedAtMs }

end Script

/-- How far a worker is that follows the course of its job. -/
def JobEntry.Follows (p : Script) (e : JobEntry) : Prop :=
  match e.stage with
  | .queued => e.job.bare = p.submitted.bare
  | .moving event policy tries | .resting event policy tries _ =>
    p.Moves e.job event policy ∧ tries.toNat < policy.budget ∧
      p.moves.RefusesFirst event tries.toNat
  | .choosing => ∃ done ahead, p.Reaches done ahead ∧
      e.job.bare = p.submitted.bare.along done ahead
  | .starting run | .pausing run | .backingOff run _ => ∃ k done s rest,
      p.Tries e.job run .pending k k done s rest
  | .acting run _ | .waiting run _ => ∃ k done s rest,
      p.Tries e.job run .running (k + 1) k done s rest ∧
        (p.trials done.length (k + 1)).start = .ok ()
  | .succeeding run => ∃ k done s rest,
      p.Tries e.job run .running (k + 1) k done s rest ∧
        (p.trials done.length (k + 1)).start = .ok () ∧
        (p.trials done.length (k + 1)).outcome = .ok ()
  | .leaving result => result = .ok () ∧ p.Ended e.snapshot
  | .gone => e.done = true ∧ e.archived = true ∧ p.Ended e.snapshot

namespace Course

/-- A script ends with a closing move. -/
theorem isClosing_event (c : Course) : c.event.IsClosing := by
  unfold event
  split
  · trivial
  · split <;> trivial

end Course

namespace Script

variable {p : Script} {job : Job} {run : StepRun} {status : StepStatus} {started k : Nat}
  {done rest : List JobStep} {s : JobStep} {event : JobEvent} {policy : RetryPolicy}

/-- The job at its end, once it is known where that is. -/
theorem bare_final {failure : Option Fault}
    (h : p.course = (⟨rest, done.length, failure⟩ : Course).behind done) :
    p.final.bare =
      { p.submitted.bare.along done rest with lastError := failure.map Fault.message } := by
  rw [final, h]
  rfl

private theorem event_of_failure {fault : Fault} (h : p.course.failure = some fault) :
    p.course.event = fault.ending := by
  rw [Course.event, h]
  rfl

/-- A script begins with all steps ahead. -/
theorem reaches_start (h : p.Playable) : p.Reaches [] p.steps := ⟨rfl, h.fresh⟩

/-- The step that is tried is the step whose turn it is, after the attempts so far. -/
theorem Tries.current? (h : p.Tries job run status started k done s rest) :
    job.current? = some (s.after (p.trials done.length) status started k) := by
  rw [← Job.current?_bare, h.job, Job.current?_along, List.head?_cons]

private theorem Tries.currentStep (h : p.Tries job run status started k done s rest) :
    job.currentStep = done.length :=
  congrArg Job.currentStep h.job

/-- The attempts at a step can be counted. -/
theorem Tries.lt (h : p.Tries job run status started k done s rest) : k + 1 < 2 ^ 32 := by
  have hroom := h.room
  have hbound := run.policy.maxAttempts.toNat_lt
  rw [RetryPolicy.budget] at hroom
  omega

/-- The step has counted the attempts that were started. -/
theorem Tries.toNat_attempts (h : p.Tries job run status started k done s rest)
    (hstarted : started ≤ k + 1) : job.attempts.toNat = started := by
  rw [Job.attempts_of_current? h.current?]
  exact JobStep.toNat_attempts_after _ _ _ _ (Nat.lt_of_le_of_lt hstarted h.lt)

private theorem Moves.not_refuses (h : p.Moves job event policy) (hp : p.Playable) :
    ¬p.moves.RefusesFirst event policy.budget := by
  rcases h with ⟨rfl, rfl, -⟩ | ⟨rfl, rfl, -⟩
  · exact hp.start
  · exact hp.finish

private theorem ended_of_bare (h : job.bare = p.final.bare) (hstate : job.state = p.course.state) :
    p.Ended job := by
  have hfields := congrArg (fun j : Job =>
    { j with state := p.course.state, updatedAtMs := job.updatedAtMs }) h
  have hjob : job = { job.bare with
      state := p.course.state, updatedAtMs := job.updatedAtMs } := by
    rw [← hstate]
    rfl
  exact hjob.trans hfields

end Script

namespace JobEntry

variable {p : Script} {e e' : JobEntry} {run : StepRun} {k : Nat} {done ahead rest : List JobStep}
  {s : JobStep} {event : JobEvent} {policy : RetryPolicy} {tries : UInt32}

/-- A worker that comes to the end of the script follows it to its closing move. -/
theorem follows_conclude (hphase : e.phase ≠ .stopRequested) (hevent : p.course.event = event)
    {failure : Option Fault} (hjob : (e.job.endedBy failure).bare = p.final.bare) :
    (e.conclude p.config event failure).Follows p := by
  obtain ⟨hasked, -⟩ | ⟨-, hc⟩ := e.conclude_cases p.config event failure
  · exact (hphase hasked).elim
  · rw [hc]
    have hpolicy := Job.closingPolicy_of_bare p.config hjob
    exact ⟨Or.inr ⟨hevent.symm, hpolicy, hjob⟩, RetryPolicy.budget_pos _,
      p.moves.refusesFirst_zero _⟩

/-- A job whose step fails for good. -/
theorem follows_failed (hphase : e.phase ≠ .stopRequested) {fault : Fault}
    (hcourse : p.course = (⟨ahead, done.length, some fault⟩ : Course).behind done) {job : Job}
    (hjob : job.bare = p.submitted.bare.along done ahead) :
    (conclude { e with job } p.config fault.ending (some fault)).Follows p := by
  have hfailure : p.course.failure = some fault := by
    rw [hcourse]
    rfl
  apply follows_conclude
  · exact hphase
  · exact Script.event_of_failure hfailure
  · rw [Script.bare_final hcourse]
    exact congrArg (fun j : Job => { j with lastError := some fault.message }) hjob

/-- The worker of a job whose step is next takes it on, or finds that there is none. -/
theorem follows_choose (hreaches : p.Reaches done ahead)
    (hjob : e.job.bare = p.submitted.bare.along done ahead) (hphase : e.phase ≠ .stopRequested)
    (hstop : ¬e.stop = true) : (e.choose p.config p.registry).Follows p := by
  have hcurrent : e.job.current? = ahead.head? := by
    rw [← Job.current?_bare, hjob, Job.current?_along]
  have hcourse := hreaches.course
  obtain ⟨hasked, -⟩ | ⟨-, hnone, hc⟩ | ⟨-, s, fault, hs, hlookup, hc⟩ |
    ⟨-, s, d, hs, hlookup, hc⟩ := e.choose_cases p.config p.registry
  · exact (hstop hasked).elim
  · obtain rfl := List.head?_eq_none_iff.1 (hcurrent.symm.trans hnone)
    change p.course = (⟨[], done.length, none⟩ : Course).behind done at hcourse
    rw [hc]
    apply follows_conclude
    · exact hphase
    · rw [hcourse]
      rfl
    · rw [Script.bare_final hcourse, Job.endedBy, hjob]
      rfl
  · obtain ⟨rest, rfl⟩ := List.head?_eq_some_iff.1 (hcurrent.symm.trans hs)
    have hending : fault.ending = .fatalError := by
      rw [Registry.eq_of_lookup_error hlookup]
      rfl
    rw [course_of_unknown hlookup] at hcourse
    rw [hc, ← hending]
    apply follows_failed hphase hcourse
    have hchanged := congrArg (Job.noting · fault .failed) hjob
    rw [Job.noting, Job.noting, Job.modifyCurrent_along] at hchanged
    exact hchanged
  · obtain ⟨rest, rfl⟩ := List.head?_eq_some_iff.1 (hcurrent.symm.trans hs)
    have huntouched := hreaches.ahead s List.mem_cons_self
    rw [hc]
    refine ⟨0, done, s, rest, hreaches, ⟨d, hlookup⟩, rfl, RetryPolicy.budget_pos _,
      Trial.goes_zero, ?_⟩
    rw [huntouched.eq_after]
    exact hjob

/-- An attempt has failed: another one follows, or the step is over. -/
theorem follows_attemptFailed (h : p.Tries e.job run .running (k + 1) k done s rest)
    {fault : Fault} (hfault : (p.trials done.length (k + 1)).fault? = some fault)
    (hphase : e.phase ≠ .stopRequested) (hstop : ¬e.stop = true) :
    (e.attemptFailed p.config run fault).Follows p := by
  obtain ⟨d, hd⟩ := h.known
  have hroom : k + 1 ≤ (p.config.policyFor s).budget := by
    rw [← h.policy]
    exact h.room
  have hfinal : (p.trials done.length (k + 1)).isFinal = (fault.isFatal || !fault.isRetryable) := by
    rw [Verdict.isFinal, hfault]
    rfl
  have hjob (status : StepStatus) : (e.job.noting fault status).bare =
      p.submitted.bare.along done
        (s.after (p.trials done.length) status (k + 1) (k + 1) :: rest) := by
    have hchanged := congrArg (Job.noting · fault status) h.job
    rw [Job.noting, Job.noting, Job.modifyCurrent_along,
      JobStep.failed_after s .running status hfault] at hchanged
    exact hchanged
  have hcount : e.job.attempts.toNat = k + 1 := h.toNat_attempts (Nat.le_refl _)
  have hallows : run.policy.allowsAnother e.job.attempts = true ↔
      k + 1 < (p.config.policyFor s).budget := by
    rw [← h.policy, RetryPolicy.allowsAnother, decide_eq_true_eq, UInt32.lt_iff_toNat_lt, hcount,
      RetryPolicy.budget]
    omega
  obtain ⟨hasked, -⟩ | ⟨-, hover, hc⟩ | ⟨-, hfatal, hretry, hallowed, hc⟩ :=
    e.attemptFailed_cases p.config run fault
  · exact (hstop hasked).elim
  · -- this attempt was the last one, so the job ends with it
    have hend : (p.trials done.length (k + 1)).isFinal = true ∨
        k + 1 = (p.config.policyFor s).budget := by
      rw [hfinal]
      rcases hover with hfatal | hretry | hallowed
      · left
        rw [hfatal, Bool.true_or]
      · left
        rw [hretry, Bool.not_false, Bool.or_true]
      · right
        have hnot : ¬k + 1 < (p.config.policyFor s).budget := by
          rw [← hallows, hallowed]
          exact Bool.false_ne_true
        omega
    have hcourse := h.reaches.course
    rw [course_of_fault hd h.goes hroom hend hfault] at hcourse
    rw [hc]
    exact follows_failed hphase hcourse (hjob .failed)
  · have hroom' : k + 1 < run.policy.budget := by
      rw [h.policy]
      exact hallows.1 hallowed
    have hnext : (p.trials done.length (k + 1)).isFinal = false := by
      rw [hfinal, hfatal, hretry]
      rfl
    rw [hc]
    exact ⟨k + 1, done, s, rest, h.reaches, h.known, h.policy, hroom', h.goes.succ hnext,
      hjob .pending⟩

/-- A move that was refused and may be tried again. -/
theorem follows_moveRefused (hmoves : p.Moves e.job event policy) {fault : Fault}
    (hretry : fault.isRetryable = true) (hallows : policy.allowsAnother tries = true)
    (htries : tries.toNat < policy.budget) (hrefuses : p.moves.RefusesFirst event tries.toNat)
    (now : Nat) : (e.moveRefused now event policy tries fault).Follows p := by
  obtain ⟨-, -, hc⟩ | ⟨hover, -⟩ := e.moveRefused_cases now event policy tries fault
  · rw [hc]
    exact ⟨hmoves, htries, hrefuses⟩
  · rw [hretry, hallows] at hover
    cases hover

variable {f : Fleet} {id : JobId}

/-- One try to record a move of the job. -/
theorem follows_move (hp : p.Playable) (h : e.Standing)
    (hstage : e.stage = .moving event policy tries)
    (hmoves : p.Moves e.job event policy) (htries : tries.toNat < policy.budget)
    (hrefuses : p.moves.RefusesFirst event tries.toNat) (hhears : f.HearsMoves p.moves e)
    (hbrings : (e.work f id).Brings f id e e') : e'.Follows p := by
  have hbefits := h.befits
  rw [hstage] at hbefits
  obtain ⟨state, hnext⟩ := JobEvent.Befits.next? hbefits
  rcases tries_move hstage hnext hhears hbrings with ⟨fault, hrefused, hretry, rfl⟩ | ⟨-, rfl⟩
  · obtain ⟨hcount, hallows⟩ := RetryPolicy.allowsAnother_succ htries
    have hrefuses' := hrefuses.succ hrefused
    have hroom : tries.toNat + 1 < policy.budget := by
      by_contra hover
      have hlast : tries.toNat + 1 = policy.budget := by omega
      rw [hlast] at hrefuses'
      exact hmoves.not_refuses hp hrefuses'
    apply follows_moveRefused
    · exact hmoves
    · exact hretry
    · exact hallows.2 hroom
    · rw [hcount]
      exact hroom
    · rw [hcount]
      exact hrefuses'
  · rcases hmoves with ⟨rfl, -, hjob⟩ | ⟨rfl, -, hjob⟩
    · exact ⟨[], p.steps, Script.reaches_start hp, hjob⟩
    · have hrunning := h.running p.course.isClosing_event hstage
      rw [hrunning, Course.next?_event] at hnext
      rw [moved_of_isClosing p.course.isClosing_event]
      exact ⟨rfl, Script.ended_of_bare hjob (Option.some.inj hnext).symm⟩

/-- The start of an attempt. -/
theorem follows_starting (htries : p.Tries e.job run .pending k k done s rest)
    (hheard : (f.persist e.job.beginAttempt).1 = (p.trials done.length (k + 1)).start)
    (hphase : e.phase ≠ .stopRequested) (hstop : ¬e.stop = true)
    (hbrings : (Work.record e.job.beginAttempt false (afterStart p.config run)).Brings f id e e') :
    e'.Follows p := by
  have hjob : (f.stamped e.job.beginAttempt).bare = p.submitted.bare.along done
      (s.after (p.trials done.length) .running (k + 1) k :: rest) := by
    have hchanged := congrArg Job.beginAttempt htries.job
    rw [Job.beginAttempt, Job.beginAttempt, Job.modifyCurrent_along, JobStep.begun_after]
      at hchanged
    exact hchanged
  have hbegun : p.Tries (f.stamped e.job.beginAttempt) run .running (k + 1) k done s rest :=
    { htries with job := hjob }
  rcases hbrings with ⟨fault, hpersist, rfl⟩ | ⟨hpersist, rfl⟩
  · have hfault := Verdict.fault?_of_start (hheard.symm.trans hpersist)
    apply follows_attemptFailed
    · exact hbegun
    · exact hfault
    · exact hphase
    · exact hstop
  · exact ⟨k, done, s, rest, hbegun, hheard.symm.trans hpersist⟩

/-- What an attempt does, until it is over or has to wait. -/
theorem follows_afterRun {e₁ : JobEntry} (ha : e.MayBeAsked e₁)
    (htries : p.Tries e.job run .running (k + 1) k done s rest)
    (hstart : (p.trials done.length (k + 1)).start = .ok ())
    {result : Suspension (Except Fault Unit) ⊕ Except Fault Unit}
    (hheard : ∀ r, result = .inr r → r = (p.trials done.length (k + 1)).outcome)
    (hphase : e.phase ≠ .stopRequested) (hstop : ¬e.stop = true) :
    (e₁.afterRun p.config run result).stop = true ∨
      (e₁.afterRun p.config run result).Follows p := by
  rcases ha with rfl | ⟨-, rfl⟩
  · right
    rcases result with suspension | fault | ⟨⟩
    · exact ⟨k, done, s, rest, htries, hstart⟩
    · have hfault := Verdict.fault?_of_outcome (hheard _ rfl).symm
      exact follows_attemptFailed htries hfault hphase hstop
    · exact ⟨k, done, s, rest, htries, hstart, (hheard _ rfl).symm⟩
  · left
    exact (preserved_afterRun ..).stop

/-- The end of an attempt that has done what it should. -/
theorem follows_succeeding (htries : p.Tries e.job run .running (k + 1) k done s rest)
    (hstart : (p.trials done.length (k + 1)).start = .ok ())
    (houtcome : (p.trials done.length (k + 1)).outcome = .ok ())
    (hheard : (f.persist e.job.completeStep).1 = (p.trials done.length (k + 1)).ending)
    (hphase : e.phase ≠ .stopRequested) (hstop : ¬e.stop = true)
    (hbrings : (Work.record e.job.completeStep false
      (afterSuccess p.config run e.job)).Brings f id e e') : e'.Follows p := by
  rcases hbrings with ⟨fault, hpersist, rfl⟩ | ⟨hpersist, rfl⟩
  · have hfault := Verdict.fault?_of_ending (hheard.symm.trans hpersist)
    apply follows_attemptFailed
    · exact { htries with job := htries.job }
    · exact hfault
    · exact hphase
    · exact hstop
  · obtain ⟨d, hd⟩ := htries.known
    have hroom : k + 1 ≤ (p.config.policyFor s).budget := by
      rw [← htries.policy]
      exact htries.room
    have hend := Verdict.eq_succeeded hstart houtcome (hheard.symm.trans hpersist)
    have hcourse := htries.reaches.course
    rw [course_of_succeeded hd htries.goes hroom hend, Course.behind_behind] at hcourse
    have hjob := congrArg Job.completeStep htries.job
    rw [Job.completeStep_along] at hjob
    refine ⟨_, rest, ⟨?_, fun t ht => ?_⟩, hjob⟩
    · rw [hcourse]
      simp [JobStep.after]
    · exact htries.reaches.ahead t (List.mem_cons_of_mem _ ht)

/-- The pause before the next attempt. -/
theorem follows_backOff (htries : p.Tries e.job run .pending k k done s rest) (now : Nat) :
    (e.backOff now run).Follows p := by
  obtain ⟨-, hc⟩ | ⟨-, hc⟩ := e.backOff_cases now run
  · rw [hc]
    exact ⟨k, done, s, rest, htries⟩
  · rw [hc]
    exact ⟨k, done, s, rest, htries⟩

/-- Waiting in line, or being let in. -/
private theorem follows_queued (hstage : e.stage = .queued) (hfollows : e.Follows p)
    (hconfig : f.config = p.config) (hbrings : (e.work f id).Brings f id e e') : e'.Follows p := by
  have hjob := hfollows
  rw [Follows, hstage] at hjob
  rw [work, hstage] at hbrings
  dsimp only at hbrings
  split at hbrings
  · obtain rfl := hbrings
    rw [hconfig]
    exact ⟨Or.inl ⟨rfl, rfl, hjob⟩, RetryPolicy.budget_pos _, p.moves.refusesFirst_zero _⟩
  · obtain rfl := hbrings
    exact hfollows

/-- A rest between two tries to record a move of the job. -/
private theorem follows_resting {wakeAt : Nat}
    (hstage : e.stage = .resting event policy tries wakeAt)
    (hfollows : e.Follows p) (hbrings : (e.work f id).Brings f id e e') : e'.Follows p := by
  have hmoves := hfollows
  rw [Follows, hstage] at hmoves
  rw [work, hstage] at hbrings
  dsimp only at hbrings
  split at hbrings
  · obtain rfl := hbrings
    exact hmoves
  · obtain rfl := hbrings
    exact hfollows

/-- A program that runs for the first time in its attempt. -/
private theorem follows_acting {program : Program Stepping (Except Fault Unit)}
    (hstage : e.stage = .acting run program) (hphase : e.phase ≠ .stopRequested)
    (hstop : ¬e.stop = true) (hfollows : e.Follows p) (hid : e.job.id = id)
    (hconfig : f.config = p.config) (hattempts : f.HearsAttempts p.trials e)
    (hbrings : (e.work f id).Brings f id e e') : e'.stop = true ∨ e'.Follows p := by
  rw [work, hstage] at hbrings
  rw [Follows, hstage] at hfollows
  rw [Fleet.HearsAttempts, hstage] at hattempts
  obtain ⟨k, done, s, rest, htries, hstart⟩ := hfollows
  dsimp only at hattempts hbrings
  rw [htries.currentStep, htries.toNat_attempts (Nat.le_refl _), hid] at hattempts
  rw [if_neg hstop] at hbrings
  obtain ⟨e₁, ha, rfl⟩ := hbrings
  rw [hconfig]
  exact follows_afterRun ha htries hstart hattempts hphase hstop

/-- A program that waits, or goes on with what it has waited for. -/
private theorem follows_waiting {suspension : Suspension (Except Fault Unit)}
    (hstage : e.stage = .waiting run suspension) (hphase : e.phase ≠ .stopRequested)
    (hstop : ¬e.stop = true) (hfollows : e.Follows p) (hid : e.job.id = id)
    (hconfig : f.config = p.config) (hattempts : f.HearsAttempts p.trials e)
    (hbrings : (e.work f id).Brings f id e e') : e'.stop = true ∨ e'.Follows p := by
  have htrying := hfollows
  rw [work, hstage] at hbrings
  rw [Follows, hstage] at htrying
  rw [Fleet.HearsAttempts, hstage] at hattempts
  dsimp only at hattempts hbrings
  rw [if_neg hstop] at hbrings
  split at hbrings
  · next program hresume =>
    obtain ⟨k, done, s, rest, htries, hstart⟩ := htrying
    rw [htries.currentStep, htries.toNat_attempts (Nat.le_refl _), hid] at hattempts
    obtain ⟨e₁, ha, rfl⟩ := hbrings
    rw [hconfig]
    exact follows_afterRun ha htries hstart (fun r => hattempts program r hresume) hphase hstop
  · obtain rfl := hbrings
    exact Or.inr hfollows

/-- A failed attempt is put down. -/
private theorem follows_pausing (hstage : e.stage = .pausing run) (hfollows : e.Follows p)
    (hbrings : (e.work f id).Brings f id e e') : e'.Follows p := by
  rw [work, hstage] at hbrings
  rw [Follows, hstage] at hfollows
  obtain ⟨k, done, s, rest, htries⟩ := hfollows
  have hstamped : p.Tries (f.stamped e.job) run .pending k k done s rest :=
    { htries with job := htries.job }
  rcases hbrings with ⟨fault, -, rfl⟩ | ⟨-, rfl⟩
  · apply follows_backOff
    exact hstamped
  · apply follows_backOff
    exact hstamped

/-- A pause between two attempts. -/
private theorem follows_backingOff {wakeAt : Nat} (hstage : e.stage = .backingOff run wakeAt)
    (hstop : ¬e.stop = true) (hfollows : e.Follows p)
    (hbrings : (e.work f id).Brings f id e e') : e'.Follows p := by
  have htries := hfollows
  rw [work, hstage] at hbrings
  rw [Follows, hstage] at htries
  dsimp only at hbrings
  rw [if_neg hstop] at hbrings
  split at hbrings
  · obtain rfl := hbrings
    exact htries
  · obtain rfl := hbrings
    exact hfollows

/-- A worker that follows the course of its job goes on doing so, unless it is asked to stop. -/
theorem follows_of_brings (hp : p.Playable) (h : e.Standing) (hunsplit : e.Unsplit)
    (hstop : ¬e.stop = true) (hfollows : e.Follows p) (hid : e.job.id = id)
    (hconfig : f.config = p.config) (hregistry : f.registry = p.registry)
    (hhears : f.Hears p.trials p.moves e) (hbrings : (e.work f id).Brings f id e e') :
    e'.stop = true ∨ e'.Follows p := by
  have hphase : e.phase ≠ .stopRequested := fun hphase => hstop (hunsplit hphase)
  have hattempts := hhears.1
  cases hstage : e.stage with
  | queued => exact Or.inr (follows_queued hstage hfollows hconfig hbrings)
  | resting => exact Or.inr (follows_resting hstage hfollows hbrings)
  | acting => exact follows_acting hstage hphase hstop hfollows hid hconfig hattempts hbrings
  | waiting => exact follows_waiting hstage hphase hstop hfollows hid hconfig hattempts hbrings
  | pausing => exact Or.inr (follows_pausing hstage hfollows hbrings)
  | backingOff => exact Or.inr (follows_backingOff hstage hstop hfollows hbrings)
  | moving event policy tries =>
    rw [Follows, hstage] at hfollows
    obtain ⟨hmoves, htries, hrefuses⟩ := hfollows
    exact Or.inr (follows_move hp h hstage hmoves htries hrefuses hhears.2 hbrings)
  | choosing =>
    rw [work, hstage] at hbrings
    rw [Follows, hstage] at hfollows
    obtain ⟨done, ahead, hreaches, hjob⟩ := hfollows
    obtain rfl := hbrings
    rw [hconfig, hregistry]
    exact Or.inr (follows_choose hreaches hjob hphase hstop)
  | starting run =>
    rw [work, hstage, hconfig] at hbrings
    rw [Follows, hstage] at hfollows
    rw [Fleet.HearsAttempts, hstage] at hattempts
    obtain ⟨k, done, s, rest, htries⟩ := hfollows
    dsimp only at hattempts
    rw [htries.currentStep, htries.toNat_attempts (Nat.le_succ k)] at hattempts
    exact Or.inr (follows_starting htries hattempts hphase hstop hbrings)
  | succeeding run =>
    rw [work, hstage, hconfig] at hbrings
    rw [Follows, hstage] at hfollows
    rw [Fleet.HearsAttempts, hstage] at hattempts
    obtain ⟨k, done, s, rest, htries, hstart, houtcome⟩ := hfollows
    dsimp only at hattempts
    rw [htries.currentStep, htries.toNat_attempts (Nat.le_refl _)] at hattempts
    exact Or.inr (follows_succeeding htries hstart houtcome hattempts hphase hstop hbrings)
  | leaving result =>
    rw [work, hstage] at hbrings
    rw [Follows, hstage] at hfollows
    obtain ⟨rfl, hended⟩ := hfollows
    obtain rfl := hbrings
    exact Or.inr ⟨rfl, rfl, hended⟩
  | gone =>
    rw [work, hstage] at hbrings
    obtain rfl := hbrings
    exact Or.inr hfollows

end JobEntry

end Flotilla
