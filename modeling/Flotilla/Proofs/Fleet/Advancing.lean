import Flotilla.Proofs.Fleet.Standing
import Flotilla.Proofs.Worker.Order

/-!
# How a job gets on

The stage of a worker tells what has become of the step whose turn it is (`Stage.Expects`): it is
untouched while the worker looks for it, under way while it is tried, pending between two attempts,
and failed or called off when its job ends. With the steps before it done and those after it
untouched, every record of the job is one of a job that gets on in order, whatever the store refuses
and whenever a stop comes (`Fleet.coherent_run`).
-/

namespace Flotilla

private theorem Text.append_ne_empty {s : String} (h : s ≠ "") (t : String) : s ++ t ≠ "" := by
  intro hempty
  have hlist := congrArg String.toList hempty
  rw [String.toList_append] at hlist
  exact h (String.toList_inj.1 (List.append_eq_nil_iff.1 hlist).1)

/-- Every fault has something to say. -/
theorem Fault.message_ne_empty (fault : Fault) : fault.message ≠ "" := by
  cases fault <;> dsimp only [message] <;> repeat apply Text.append_ne_empty
  all_goals decide

namespace JobStep

/-- A step that may be tried. -/
structure Ready (config : Config) (s : JobStep) : Prop where
  status : s.status = .pending
  attempts : s.attempts = 0 ∨ s.attempts < (config.policyFor s).maxAttempts

/-- A step that is being tried. -/
structure Trying (config : Config) (s : JobStep) : Prop where
  status : s.status = .running
  tried : s.attempts ≠ 0
  allowed : config.Allows s

/-- A step that failed for good. -/
structure Failed (config : Config) (s : JobStep) : Prop where
  status : s.status = .failed
  allowed : config.Allows s

/-- A step that a stop comes upon. -/
structure Interrupted (config : Config) (s : JobStep) : Prop where
  status : s.status = .pending ∨ (s.status = .running ∧ s.attempts ≠ 0)
  allowed : config.Allows s

/-- A step that a stop has left behind. -/
structure LetGo (config : Config) (s : JobStep) : Prop where
  status : s.status = .cancelled ∨ (s.status = .pending ∧ s.attempts = 0)
  allowed : config.Allows s

variable {config : Config} {s : JobStep}

/-- A step that has not been touched may be tried. -/
theorem Untouched.ready (h : s.Untouched) : s.Ready config := ⟨h.status, Or.inl h.attempts⟩

private theorem Untouched.interrupted (h : s.Untouched) : s.Interrupted config :=
  ⟨Or.inl h.status, h.allowed config⟩

private theorem Trying.interrupted (h : s.Trying config) : s.Interrupted config :=
  ⟨Or.inr ⟨h.status, h.tried⟩, h.allowed⟩

private theorem Ready.allowed (h : s.Ready config) : config.Allows s := by
  rw [Config.Allows, RetryPolicy.budget]
  rcases h.attempts with hzero | hlt
  · simp [hzero]
  · have hle := UInt32.lt_iff_toNat_lt.1 hlt
    omega

private theorem Ready.interrupted (h : s.Ready config) : s.Interrupted config :=
  ⟨Or.inl h.status, h.allowed⟩

/-- The attempts are counted without running over. -/
theorem Ready.toNat_attempts (h : s.Ready config) :
    (s.attempts + 1).toNat = s.attempts.toNat + 1 := by
  rw [UInt32.toNat_add]
  rcases h.attempts with hzero | hlt
  · simp [hzero]
  · have hle := UInt32.lt_iff_toNat_lt.1 hlt
    have hbound := (config.policyFor s).maxAttempts.toNat_lt
    simp
    omega

/-- A step that may be tried is being tried once an attempt has begun. -/
theorem Ready.begun (h : s.Ready config) :
    Trying config { s with attempts := s.attempts + 1, status := .running } := by
  have hattempts := h.toNat_attempts
  refine ⟨rfl, fun hzero => ?_, ?_⟩
  · dsimp only at hzero
    simp [hzero] at hattempts
  · change (s.attempts + 1).toNat ≤ (config.policyFor s).budget
    rw [hattempts, RetryPolicy.budget]
    rcases h.attempts with hzero | hlt
    · rw [hzero]
      exact RetryPolicy.budget_pos _
    · have hle := UInt32.lt_iff_toNat_lt.1 hlt
      omega

end JobStep

/-- What is expected of a job whose worker is about to record this event. -/
def JobEvent.Expects (config : Config) (job : Job) : JobEvent → Prop
  | .start => ∀ s, job.current? = some s → s.Untouched
  | .allStepsCompleted => job.current? = none
  | .stepExhausted | .fatalError => (∃ text, job.lastError = some text ∧ text ≠ "") ∧
      ∀ s, job.current? = some s → s.Failed config
  | .stopRequested => ∀ s, job.current? = some s → s.Interrupted config
  | .stopSettled => ∀ s, job.current? = some s → s.LetGo config

/-- What is expected of a job whose worker is at this stage. -/
def Stage.Expects (config : Config) (job : Job) : Stage → Prop
  | .queued | .choosing => ∀ s, job.current? = some s → s.Untouched
  | .moving event .. | .resting event .. => event.Expects config job
  | .starting run =>
    ∃ s, job.current? = some s ∧ run.policy = config.policyFor s ∧ s.Ready config
  | .acting run _ | .waiting run _ | .succeeding run =>
    ∃ s, job.current? = some s ∧ run.policy = config.policyFor s ∧ s.Trying config
  | .pausing run | .backingOff run _ =>
    ∃ s, job.current? = some s ∧ run.policy = config.policyFor s ∧ s.Ready config
  | .leaving _ | .gone => True

namespace Job

variable {config : Config} {steps : List JobStep} {job : Job}

private theorem Coherent.stamped (h : job.Coherent config steps) (f : Fleet) :
    (f.stamped job).Coherent config steps := { h with }

/-- The record of a move says what is expected of it. -/
theorem coherent_of_expects (hsorted : job.Sorted config)
    (hplan : job.steps.map JobStep.plan = steps.map JobStep.plan) {event : JobEvent}
    (hexpects : event.Expects config job) {state : JobState}
    (hnext : job.state.next? event = some state) :
    ({ job with state } : Job).Coherent config steps := by
  have hordered (hcurrent : ∀ s, job.current? = some s → config.Allows s) :
      ({ job with state } : Job).Ordered config steps :=
    { hsorted.ordered hplan hcurrent with }
  cases event with
  | start =>
    have hstate : state = .running := by
      revert hnext
      cases job.state <;> simp [JobState.next?, eq_comm]
    subst hstate
    exact (hordered fun s hs => (hexpects s hs).allowed config).coherent nofun rfl
  | stopRequested =>
    have hstate : state = .stopping := by
      revert hnext
      cases job.state <;> simp [JobState.next?, eq_comm]
    subst hstate
    exact (hordered fun s hs => (hexpects s hs).allowed).coherent nofun rfl
  | allStepsCompleted =>
    have hstate : state = .completed := by
      revert hnext
      cases job.state <;> simp [JobState.next?, eq_comm]
    subst hstate
    have hnone (s : JobStep) (hs : job.current? = some s) : False := by
      cases hexpects.symm.trans hs
    have hend : job.currentStep = job.steps.length :=
      Nat.le_antisymm hsorted.within (List.getElem?_eq_none_iff.1 hexpects)
    have h := hordered fun s hs => (hnone s hs).elim
    exact ⟨h, nofun, fun _ => hend, nofun, nofun,
      fun _ => h.settled fun s hs => (hnone s hs).elim⟩
  | stepExhausted | fatalError =>
    have hstate : state = .stepFailed := by
      revert hnext
      cases job.state <;> simp [JobState.next?, eq_comm]
    subst hstate
    obtain ⟨htext, hcurrent⟩ := hexpects
    have h := hordered fun s hs => (hcurrent s hs).allowed
    refine ⟨h, nofun, nofun, fun _ => ⟨htext, ?_⟩, nofun, fun _ => h.settled fun s hs => ?_⟩
    · cases hget : job.current? with
      | none =>
        left
        exact Nat.le_antisymm hsorted.within (List.getElem?_eq_none_iff.1 hget)
      | some s => exact Or.inr ⟨s, hget, (hcurrent s hget).status⟩
    · simp [(hcurrent s hs).status]
  | stopSettled =>
    have hstate : state = .stopped := by
      revert hnext
      cases job.state <;> simp [JobState.next?, eq_comm]
    subst hstate
    have h := hordered fun s hs => (hexpects s hs).allowed
    refine ⟨h, nofun, nofun, nofun, fun _ s hs htried => ?_, fun _ => h.settled fun s hs => ?_⟩
    · rcases (hexpects s hs).status with hcancelled | ⟨-, hzero⟩
      · exact hcancelled
      · exact (htried hzero).elim
    · rcases (hexpects s hs).status with hcancelled | ⟨hpending, -⟩
      · simp [hcancelled]
      · simp [hpending]

/-- The record of a job that runs. -/
theorem coherent_of_running (hsorted : job.Sorted config)
    (hplan : job.steps.map JobStep.plan = steps.map JobStep.plan)
    (hcurrent : ∀ s, job.current? = some s → config.Allows s) (hstate : job.state = .running) :
    job.Coherent config steps := by
  have hordered := hsorted.ordered hplan hcurrent
  exact hordered.coherent (by simp [hstate]) (by rw [hstate]; rfl)

end Job

namespace JobEntry

/-- A job with these steps that goes through them in order, and that is asked to stop by the flag
whenever a stop has claimed its phase. -/
structure Goes (steps : List JobStep) (config : Config) (e : JobEntry) : Prop where
  asked : e.phase = .stopRequested → e.stop = true
  plan : e.job.steps.map JobStep.plan = steps.map JobStep.plan
  sorted : e.job.Sorted config

/-- Such a job whose worker finds what its stage expects. -/
structure Advances (steps : List JobStep) (config : Config) (e : JobEntry) : Prop
    extends Goes steps config e where
  expects : e.stage.Expects config e.job

variable {steps : List JobStep} {config : Config} {e : JobEntry} {run : StepRun} {s : JobStep}

/-- Changing the step whose turn it is, but not what it is about. -/
theorem Goes.modifyCurrent (h : e.Goes steps config) (change : JobStep → JobStep)
    (hchange : ∀ s, (change s).plan = s.plan) :
    Goes steps config { e with job := e.job.modifyCurrent change } where
  asked := h.asked
  plan := (e.job.plans_modifyCurrent hchange).trans h.plan
  sorted := h.sorted.modifyCurrent change

private theorem Goes.goTo (h : e.Goes steps config) {stage : Stage}
    (hexpects : stage.Expects config e.job) : (e.goTo stage).Advances steps config :=
  { h with expects := hexpects }

private theorem Goes.beginStop (h : e.Goes steps config)
    (hcurrent : ∀ s, e.job.current? = some s → s.Interrupted config) :
    (e.beginStop config).Advances steps config :=
  h.goTo hcurrent

/-- A stop while a step is under way. -/
theorem Goes.interrupt (h : e.Goes steps config) (hs : e.job.current? = some s)
    (hinterrupted : s.Interrupted config) : (e.beginStop config).Advances steps config := by
  refine h.beginStop fun t ht => ?_
  obtain rfl := Option.some.inj (hs.symm.trans ht)
  exact hinterrupted

/-- Nobody has claimed the phase of a job that is not asked to stop. -/
theorem Goes.unclaimed (h : e.Goes steps config) (hstop : ¬e.stop = true) :
    e.phase ≠ .stopRequested :=
  fun hphase => hstop (h.asked hphase)

private theorem Goes.complete (h : e.Goes steps config) (hstop : ¬e.stop = true)
    (hcurrent : e.job.current? = none) :
    (e.conclude config .allStepsCompleted none).Advances steps config := by
  rcases e.conclude_cases config .allStepsCompleted none with ⟨hphase, -⟩ | ⟨-, hc⟩
  · exact (h.unclaimed hstop hphase).elim
  · rw [hc]
    exact ⟨⟨nofun, h.plan, h.sorted⟩, hcurrent⟩

private theorem Goes.fail (h : e.Goes steps config) (hstop : ¬e.stop = true) {event : JobEvent}
    (hevent : event = .fatalError ∨ event = .stepExhausted) (fault : Fault)
    (hcurrent : ∀ s, e.job.current? = some s → s.Failed config) :
    (e.conclude config event (some fault)).Advances steps config := by
  have htext : ∃ text, some fault.message = some text ∧ text ≠ "" :=
    ⟨fault.message, rfl, fault.message_ne_empty⟩
  rcases e.conclude_cases config event (some fault) with ⟨hphase, -⟩ | ⟨-, hc⟩
  · exact (h.unclaimed hstop hphase).elim
  · rw [hc]
    rcases hevent with rfl | rfl <;>
    exact ⟨⟨nofun, h.plan, { h.sorted with }⟩, htext, hcurrent⟩

/-- A worker that takes up a step finds what it expects. -/
theorem Goes.choose (h : e.Goes steps config) (registry : Registry)
    (hcurrent : ∀ s, e.job.current? = some s → s.Untouched) :
    (e.choose config registry).Advances steps config := by
  rcases e.choose_cases config registry with
    ⟨-, hc⟩ | ⟨hstop, hs, hc⟩ | ⟨hstop, s, fault, hs, -, hc⟩ | ⟨-, s, d, hs, -, hc⟩ <;> rw [hc]
  · exact h.beginStop fun s hs => (hcurrent s hs).interrupted
  · exact h.complete hstop hs
  · have hgoes : Goes steps config { e with job := e.job.noting fault .failed } :=
      h.modifyCurrent _ fun _ => rfl
    refine hgoes.fail hstop (Or.inl rfl) fault fun t ht => ?_
    obtain rfl := Option.some.inj ((Job.current?_noting hs fault .failed).symm.trans ht)
    exact ⟨rfl, (hcurrent s hs).allowed config⟩
  · exact h.goTo ⟨s, hs, rfl, (hcurrent s hs).ready⟩

/-- A worker whose attempt has failed finds what it expects, whatever the policy allows. -/
theorem Goes.attemptFailed (h : e.Goes steps config) (hs : e.job.current? = some s)
    (hpolicy : run.policy = config.policyFor s) (htrying : s.Trying config) (fault : Fault) :
    (e.attemptFailed config run fault).Advances steps config := by
  have hgoes (status : StepStatus) :
      Goes steps config { e with job := e.job.noting fault status } :=
    h.modifyCurrent _ fun _ => rfl
  have hcurrent (status : StepStatus) := Job.current?_noting hs fault status
  rcases e.attemptFailed_cases config run fault with
    ⟨-, hc⟩ | ⟨hstop, -, hc⟩ | ⟨-, -, -, hallows, hc⟩ <;> rw [hc]
  · exact h.interrupt hs htrying.interrupted
  · refine (hgoes .failed).fail hstop fault.ending_eq fault fun t ht => ?_
    obtain rfl := Option.some.inj ((hcurrent .failed).symm.trans ht)
    exact ⟨rfl, htrying.allowed⟩
  · rw [RetryPolicy.allowsAnother, hpolicy, Job.attempts_of_current? hs,
      decide_eq_true_eq] at hallows
    exact (hgoes .pending).goTo ⟨_, hcurrent .pending, hpolicy, rfl, Or.inr hallows⟩

private theorem Goes.backOff (h : e.Goes steps config) (hs : e.job.current? = some s)
    (hpolicy : run.policy = config.policyFor s) (hready : s.Ready config) (now : Nat) :
    (e.backOff now run).Advances steps config := by
  rcases e.backOff_cases now run with ⟨-, hc⟩ | ⟨-, hc⟩ <;> rw [hc] <;>
  exact h.goTo ⟨s, hs, hpolicy, hready⟩

private theorem Goes.afterRun (h : e.Goes steps config) (hs : e.job.current? = some s)
    (hpolicy : run.policy = config.policyFor s) (htrying : s.Trying config)
    (result : Suspension (Except Fault Unit) ⊕ Except Fault Unit) :
    (e.afterRun config run result).Advances steps config := by
  rcases result with suspension | fault | ⟨⟩
  · exact h.goTo ⟨s, hs, hpolicy, htrying⟩
  · exact h.attemptFailed hs hpolicy htrying fault
  · exact h.goTo ⟨s, hs, hpolicy, htrying⟩

private theorem Goes.moveRefused (h : e.Goes steps config) {event : JobEvent}
    (hexpects : event.Expects config e.job) (now : Nat) (policy : RetryPolicy) (tries : UInt32)
    (fault : Fault) : (e.moveRefused now event policy tries fault).Advances steps config := by
  rcases e.moveRefused_cases now event policy tries fault with
    ⟨-, -, hc⟩ | ⟨-, ⟨rfl, hc⟩ | ⟨-, hc⟩⟩ <;> rw [hc]
  · exact h.goTo hexpects
  · have hnone (s : JobStep) (hs : e.job.current? = some s) : s.Failed config := by
      cases hexpects.symm.trans hs
    exact ⟨⟨h.asked, h.plan, { h.sorted with }⟩,
      ⟨fault.message, rfl, fault.message_ne_empty⟩, hnone⟩
  · exact h.goTo trivial

/-- A worker whose move was recorded finds what it expects. -/
theorem Goes.moved (h : e.Goes steps config) {event : JobEvent}
    (hexpects : event.Expects config e.job) : (e.moved config event).Advances steps config := by
  cases event with
  | start => exact h.goTo hexpects
  | allStepsCompleted | stepExhausted | fatalError | stopSettled => exact h.goTo trivial
  | stopRequested =>
    have hgoes : Goes steps config { e with job := e.job.cancelCurrent } :=
      h.modifyCurrent _ fun s => by split <;> rfl
    refine hgoes.goTo fun t ht => ?_
    have hcancelled : e.job.cancelCurrent.current? = some t := ht
    rw [Job.cancelCurrent, Job.current?_modifyCurrent] at hcancelled
    obtain ⟨s, hs, rfl⟩ := Option.map_eq_some_iff.1 hcancelled
    have hinterrupted := hexpects s hs
    split
    · exact ⟨Or.inl rfl, hinterrupted.allowed⟩
    · next hnot =>
      refine ⟨Or.inr ?_, hinterrupted.allowed⟩
      rw [not_or, not_and] at hnot
      rcases hinterrupted.status with hpending | ⟨hrunning, -⟩
      · refine ⟨hpending, ?_⟩
        have hzero := hnot.2 hpending
        rw [UInt32.lt_iff_toNat_lt] at hzero
        exact UInt32.toNat_inj.1 (Nat.eq_zero_of_not_pos hzero)
      · exact (hnot.1 hrunning).elim

private theorem Goes.mayBeAsked {e' : JobEntry} (h : e.Goes steps config) (ha : e.MayBeAsked e') :
    e'.Goes steps config ∧ e'.job = e.job ∧ e'.stage = e.stage := by
  rcases ha with rfl | ⟨-, rfl⟩
  · exact ⟨h, rfl, rfl⟩
  · exact ⟨{ h with asked := fun _ => rfl }, rfl, rfl⟩

/-- What an attempt comes to, also if the job was asked to stop during it. -/
theorem Goes.afterRun_of_mayBeAsked {e' : JobEntry} (h : e.Goes steps config)
    (ha : e.MayBeAsked e') (hs : e.job.current? = some s)
    (hpolicy : run.policy = config.policyFor s) (htrying : s.Trying config)
    (result : Suspension (Except Fault Unit) ⊕ Except Fault Unit) :
    (e'.afterRun config run result).Advances steps config := by
  obtain ⟨hgoes, hjob, -⟩ := h.mayBeAsked ha
  exact hgoes.afterRun (hjob ▸ hs) hpolicy htrying result

/-- Recording a job changes neither its steps nor which one's turn it is. -/
theorem Goes.stamped (h : e.Goes steps config) (f : Fleet) (snapshot : Job) (state : JobState) :
    Goes steps config { e with snapshot, job := { f.stamped e.job with state } } :=
  { h with sorted := { h.sorted with } }

variable {f : Fleet}

/-- The record of the start of an attempt is coherent. -/
theorem Advances.starting (h : e.Advances steps f.config) (hstate : e.job.state = .running)
    (hstage : e.stage = .starting run) :
    (Work.record e.job.beginAttempt false (afterStart f.config run)).Keeps
      (Advances steps f.config) (Job.Coherent f.config steps) f e := by
  have hexpects := h.expects
  rw [hstage] at hexpects
  obtain ⟨s, hs, hpolicy, hready⟩ := hexpects
  have hbegun := h.modifyCurrent
    (fun s => { s with attempts := s.attempts + 1, status := .running }) fun _ => rfl
  have hcurrent : (f.stamped e.job.beginAttempt).current? =
      some { s with attempts := s.attempts + 1, status := .running } :=
    Job.current?_beginAttempt hs
  have hgoes (snapshot : Job) : Goes steps f.config
      { e with snapshot, job := f.stamped e.job.beginAttempt } :=
    hbegun.stamped f snapshot e.job.state
  refine ⟨?_, fun fault => ?_, ?_⟩
  · refine Job.coherent_of_running (hgoes e.snapshot).sorted hbegun.plan (fun t ht => ?_) hstate
    obtain rfl := Option.some.inj (hcurrent.symm.trans ht)
    exact hready.begun.allowed
  · exact (hgoes e.snapshot).attemptFailed hcurrent hpolicy hready.begun fault
  · exact (hgoes _).goTo ⟨_, hcurrent, hpolicy, hready.begun⟩

/-- The record of a success is coherent. -/
theorem Advances.succeeding (h : e.Advances steps f.config) (hstate : e.job.state = .running)
    (hstage : e.stage = .succeeding run) :
    (Work.record e.job.completeStep false (afterSuccess f.config run e.job)).Keeps
      (Advances steps f.config) (Job.Coherent f.config steps) f e := by
  have hexpects := h.expects
  rw [hstage] at hexpects
  obtain ⟨s, hs, hpolicy, htrying⟩ := hexpects
  have hplan := (h.modifyCurrent (fun s => { s with status := .completed }) fun _ => rfl).plan
  obtain ⟨hsorted, huntouched⟩ := h.sorted.completeStep hs htrying.tried htrying.allowed
  have hcompleted : Goes steps f.config { e with job := e.job.completeStep } :=
    ⟨h.asked, hplan, hsorted⟩
  refine ⟨?_, fun fault => ?_, ?_⟩
  · exact (Job.coherent_of_running hsorted hplan (fun t ht => (huntouched t ht).allowed _)
      hstate).stamped f
  · exact (h.stamped f e.snapshot e.job.state).attemptFailed hs hpolicy htrying fault
  · exact (hcompleted.stamped f _ e.job.state).goTo huntouched

/-- What is expected of the job of a worker is what the worker brings about. -/
theorem advances_law (steps : List JobStep) :
    Law (fun config e => e.Standing ∧ e.Advances steps config)
      (fun config job => job.Coherent config steps) := by
  refine standing_law.refine ?_ ?_
  · rintro config e e' - h ha
    obtain ⟨hgoes, hjob, hstage⟩ := h.toGoes.mayBeAsked ha
    have hexpects := h.expects
    rw [← hjob, ← hstage] at hexpects
    exact ⟨hgoes, hexpects⟩
  · intro f id e hstanding h
    have hbefits := hstanding.befits
    have hexpects := h.expects
    unfold work
    cases hstage : e.stage with
    | queued =>
      rw [hstage] at hexpects
      dsimp only
      split
      · exact ⟨⟨nofun, h.plan, h.sorted⟩, hexpects⟩
      · exact h
    | moving event policy tries =>
      rw [hstage] at hexpects
      dsimp only
      split
      · exact h.moveRefused hexpects f.now policy (tries + 1) (e.misplaced event)
      · next state hnext =>
        refine ⟨?_, fun fault => ?_, ?_⟩
        · exact (Job.coherent_of_expects h.sorted h.plan hexpects hnext).stamped f
        · exact (h.stamped f e.snapshot e.job.state).moveRefused hexpects f.now policy
            (tries + 1) fault
        · exact (h.stamped f _ state).moved hexpects
    | resting event policy tries wakeAt =>
      rw [hstage] at hexpects
      dsimp only
      split
      · exact h.goTo hexpects
      · exact h
    | choosing =>
      rw [hstage] at hexpects
      exact h.choose f.registry hexpects
    | starting run =>
      rw [hstage] at hbefits
      exact h.starting hbefits.1 hstage
    | acting run program =>
      rw [hstage] at hexpects
      obtain ⟨s, hs, hpolicy, htrying⟩ := hexpects
      dsimp only
      split
      · exact h.interrupt hs htrying.interrupted
      · exact fun result _ ha => h.afterRun_of_mayBeAsked ha hs hpolicy htrying result
    | waiting run suspension =>
      rw [hstage] at hexpects
      obtain ⟨s, hs, hpolicy, htrying⟩ := hexpects
      dsimp only
      split
      · exact h.interrupt hs htrying.interrupted
      · split
        · exact fun result _ ha => h.afterRun_of_mayBeAsked ha hs hpolicy htrying result
        · exact h
    | succeeding run =>
      rw [hstage] at hbefits
      exact h.succeeding hbefits.1 hstage
    | pausing run =>
      rw [hstage] at hbefits hexpects
      obtain ⟨s, hs, hpolicy, hready⟩ := hexpects
      have hgoes (snapshot : Job) := h.stamped f snapshot e.job.state
      refine ⟨?_, fun fault => ?_, ?_⟩
      · refine (Job.coherent_of_running h.sorted h.plan (fun t ht => ?_) hbefits.1).stamped f
        obtain rfl := Option.some.inj (hs.symm.trans ht)
        exact hready.allowed
      · exact (hgoes e.snapshot).backOff hs hpolicy hready f.now
      · exact (hgoes _).backOff hs hpolicy hready f.now
    | backingOff run wakeAt =>
      rw [hstage] at hexpects
      obtain ⟨s, hs, hpolicy, hready⟩ := hexpects
      dsimp only
      split
      · exact h.interrupt hs hready.interrupted
      · split
        · exact h.goTo ⟨s, hs, hpolicy, hready⟩
        · exact h
    | leaving result => exact ⟨⟨nofun, h.plan, h.sorted⟩, trivial⟩
    | gone => exact h

end JobEntry

namespace Fleet

variable {f g : Fleet} {id : JobId} {config : Config} {store : UnreliableStore}
  {registry : Registry} {target : String} {steps : List JobStep}

/-- Every record of a job that the store takes, from the first one on, is that of a job that goes
through the submitted steps in order, and this can be read back from it. -/
theorem coherent_run (hregistry : registry.Spares)
    (hrun : Run (fun key => ¬IsJobKey key) (opened config store registry) f)
    (hfresh : ∀ s ∈ steps, s.Untouched) (hsubmit : (f.submit target steps).1 = .ok id)
    (hthen : Run (fun key => ¬IsJobKey key) (f.submit target steps).2 g)
    (hlt : g.submitted < 2 ^ 64) :
    TakesOnly (fun job => job.Coherent config steps ∧
      (steps.length < 2 ^ 32 → job.recorded.Coherent config steps)) id f g := by
  have hf := published_of_run hregistry hrun
  have hconfig := (settings_of_run hregistry hrun).1
  have hg := hf.step (.submit target steps)
  have hupholds := hthen.upholds (JobEntry.advances_law steps) hg id
  rcases f.submit_new target steps with ⟨fault, m, hrefused, -⟩ |
    ⟨job, tx, m, agenda, hjob, htaken, hm⟩
  · rw [hrefused] at hsubmit
    cases hsubmit
  · have hid : f.nextId = id := by
      rw [htaken] at hsubmit
      exact Except.ok.inj hsubmit
    have hid' : job.id = id := by
      rw [hjob]
      exact hid
    have hentry : (f.submit target steps).2.jobs.get? id = some (.new job) := by
      rw [get?_submit hsubmit, hjob, hid]
    have hgiven : id.toNat ≤ (f.submit target steps).2.submitted := by
      rw [htaken, ← hid]
      exact f.toNat_nextId_le
    have hsame : (f.submit target steps).2.config = config := by
      rw [htaken]
      exact hconfig
    have hcoherent : job.Coherent config steps := by
      rw [hjob]
      exact Job.coherent_new config _ _ _ hfresh
    have hadvances : (JobEntry.new job).Standing ∧
        (JobEntry.new job).Advances steps (f.submit target steps).2.config := by
      rw [hjob]
      refine ⟨JobEntry.standing_new rfl, ⟨nofun, rfl, Job.sorted_new _ _ _ _ hfresh⟩, ?_⟩
      exact fun s hs => hfresh s (List.mem_of_getElem? hs)
    have htakes : Takes f (f.submit target steps).2 job := by
      rw [htaken]
      exact ⟨⟨tx, List.append_assoc _ _ _⟩, rfl, hm⟩
    have hfirst : TakesOnly (fun job => job.Coherent config steps) id f
        (f.submit target steps).2 := hid' ▸ htakes.takesOnly hcoherent
    have hlater := (hupholds.obeys hgiven hlt).takes _ hentry hadvances
    rw [hsame] at hlater
    exact (hfirst.trans hlater).imp fun job hjob => ⟨hjob, hjob.recorded⟩

/-- A fleet whose store refuses the fifth commit, at its start. -/
def openedFlaky : Fleet :=
  let outage : Outage := ⟨.commit, some 5, none, none, none, .commitFailure "disk full"⟩
  opened .standard (.new [outage]) ⟨Table.ofList [("count", counting)]⟩

/-- That fleet after a job whose step may be tried twice. -/
def stubbornFleet : Fleet :=
  (openedFlaky.submit "edge-1" [(JobStep.new "count").withRetry ⟨2, .none⟩]).2.turns
    (List.replicate 13 (.worker 1))

/-- The first success was not recorded; the step was tried anew, and the job has completed. -/
theorem coherent_run_stubbornFleet :
    (∃ e, stubbornFleet.jobs.get? 1 = some e ∧ e.snapshot.state = .completed ∧
      e.snapshot.steps.map (·.attempts) = [2]) ∧
    TakesOnly (fun job =>
      job.Coherent .standard [(JobStep.new "count").withRetry ⟨2, .none⟩] ∧
      (1 < 2 ^ 32 → job.recorded.Coherent .standard
        [(JobStep.new "count").withRetry ⟨2, .none⟩])) 1 openedFlaky stubbornFleet := by
  have hregistry : Registry.Spares ⟨Table.ofList [("count", counting)]⟩ :=
    Registry.spares_empty.register spares_counting rfl
  have hfresh : ∀ s ∈ [(JobStep.new "count").withRetry ⟨2, .none⟩], s.Untouched := by
    intro s hs
    obtain rfl := List.mem_singleton.1 hs
    exact (JobStep.untouched_new "count").withRetry _
  exact ⟨⟨_, rfl, rfl, rfl⟩, coherent_run hregistry .refl hfresh rfl (run_turns _ _) (by decide)⟩

end Fleet

end Flotilla
