import Flotilla.Proofs.Wire.Records
import Flotilla.Proofs.Worker.Deciding

/-!
# The order of the steps of a job

A job goes through its steps one after the other: those before the one whose turn it is are done,
and those after it have not been touched (`Job.Sorted`). What a worker does to the step whose turn
it is keeps this, and so does the success that makes it the turn of the next one. A record of such a
job says of every step what its place among the others allows (`Job.Coherent`).
-/

namespace Flotilla

/-- How often something may be tried under a policy: at least once. -/
def RetryPolicy.budget (policy : RetryPolicy) : Nat := max 1 policy.maxAttempts.toNat

/-- Every policy allows an attempt. -/
theorem RetryPolicy.budget_pos (policy : RetryPolicy) : 0 < policy.budget := Nat.le_max_left ..

/-- Within the budget tries are counted without running over, and another one is allowed as long as
it is within the budget. -/
theorem RetryPolicy.allowsAnother_succ {policy : RetryPolicy} {tries : UInt32}
    (h : tries.toNat < policy.budget) :
    (tries + 1).toNat = tries.toNat + 1 ∧
      (policy.allowsAnother (tries + 1) = true ↔ tries.toNat + 1 < policy.budget) := by
  have hbound := policy.maxAttempts.toNat_lt
  have hcount : (tries + 1).toNat = tries.toNat + 1 := by
    rw [budget] at h
    rw [UInt32.toNat_add]
    simp
    omega
  refine ⟨hcount, ?_⟩
  rw [allowsAnother, decide_eq_true_eq, UInt32.lt_iff_toNat_lt, hcount, budget]
  omega

namespace JobStep

/-- A step that has not been tried. -/
structure Untouched (s : JobStep) : Prop where
  status : s.status = .pending
  attempts : s.attempts = 0
  lastError : s.lastError = none

/-- A new step has not been touched. -/
theorem untouched_new (definition : String) : (new definition).Untouched := ⟨rfl, rfl, rfl⟩

/-- Giving a step its own policy does not touch it. -/
theorem Untouched.withRetry {s : JobStep} (h : s.Untouched) (policy : RetryPolicy) :
    (s.withRetry policy).Untouched := { h with }

/-- What a step is about, whatever has become of it. -/
def plan (s : JobStep) : JobStep := { s with status := .pending, attempts := 0, lastError := none }

end JobStep

/-- A step has not been tried more often than its policy allows. -/
def Config.Allows (config : Config) (s : JobStep) : Prop :=
  s.attempts.toNat ≤ (config.policyFor s).budget

/-- A step that is done. -/
structure JobStep.Done (config : Config) (s : JobStep) : Prop where
  status : s.status = .completed
  tried : s.attempts ≠ 0
  allowed : config.Allows s

/-- A step that has not been touched is within its policy. -/
theorem JobStep.Untouched.allowed {s : JobStep} (h : s.Untouched) (config : Config) :
    config.Allows s := by
  rw [Config.Allows, h.attempts]
  exact Nat.zero_le _

namespace Job

variable {config : Config} {job : Job} {steps : List JobStep}

/-- Changing the step whose turn it is changes that step alone. -/
theorem getElem?_modifyCurrent (job : Job) (change : JobStep → JobStep) (k : Nat) :
    (job.modifyCurrent change).steps[k]? =
      if job.currentStep = k then (job.steps[k]?).map change else job.steps[k]? := by
  simp only [modifyCurrent, modifyStep, List.getElem?_modify]
  split <;> simp

@[simp] theorem length_modifyCurrent (job : Job) (change : JobStep → JobStep) :
    (job.modifyCurrent change).steps.length = job.steps.length :=
  List.length_modify ..

@[simp] theorem current?_modifyCurrent (job : Job) (change : JobStep → JobStep) :
    (job.modifyCurrent change).current? = job.current?.map change := by
  have hsteps := job.getElem?_modifyCurrent change job.currentStep
  rwa [if_pos rfl] at hsteps

/-- A change that leaves a step what it is about leaves the step whose turn it is what
it is about. -/
theorem plan_current?_modifyCurrent (job : Job) {change : JobStep → JobStep}
    (h : ∀ s, (change s).plan = s.plan) :
    (job.modifyCurrent change).current?.map JobStep.plan = job.current?.map JobStep.plan := by
  rw [current?_modifyCurrent, Option.map_map]
  exact congrArg (job.current?.map ·) (funext h)

/-- The step whose turn it is has begun one more attempt, and runs. -/
theorem current?_beginAttempt {s : JobStep} (h : job.current? = some s) :
    job.beginAttempt.current? =
      some { s with attempts := s.attempts + 1, status := .running } := by
  rw [beginAttempt, current?_modifyCurrent, h, Option.map_some]

/-- The step whose turn it is has the fault and the status that are noted. -/
theorem current?_noting {s : JobStep} (h : job.current? = some s) (fault : Fault)
    (status : StepStatus) :
    (job.noting fault status).current? =
      some { s with lastError := some fault.message, status } := by
  rw [noting, current?_modifyCurrent, h, Option.map_some]

/-- The attempts of a job are those of the step whose turn it is. -/
theorem attempts_of_current? {s : JobStep} (h : job.current? = some s) :
    job.attempts = s.attempts := by
  simp [attempts, h]

/-- To note a fault is no attempt. -/
theorem attempts_noting (job : Job) (fault : Fault) (status : StepStatus) :
    (job.noting fault status).attempts = job.attempts := by
  rw [attempts, noting, current?_modifyCurrent, Option.map_map]
  rfl

/-- A change that leaves a step what it is about leaves all steps what they are about. -/
theorem plans_modifyCurrent (job : Job) {change : JobStep → JobStep}
    (h : ∀ s, (change s).plan = s.plan) :
    (job.modifyCurrent change).steps.map JobStep.plan = job.steps.map JobStep.plan := by
  apply List.ext_getElem?
  intro k
  simp only [List.getElem?_map, getElem?_modifyCurrent]
  split
  · cases job.steps[k]? <;> simp [h]
  · rfl

/-- The steps before the one whose turn it is are done, and those after it are untouched. -/
structure Sorted (config : Config) (job : Job) : Prop where
  within : job.currentStep ≤ job.steps.length
  before : ∀ k s, job.steps[k]? = some s → k < job.currentStep → s.Done config
  after : ∀ k s, job.steps[k]? = some s → job.currentStep < k → s.Untouched

/-- A new job is sorted. -/
theorem sorted_new (config : Config) (id : JobId) (target : String) (nowMs : UInt64)
    (h : ∀ s ∈ steps, s.Untouched) : (Job.new id target steps nowMs).Sorted config where
  within := Nat.zero_le _
  before _ _ _ hk := by cases hk
  after _ s hs _ := h s (List.mem_of_getElem? hs)

/-- Changing the step whose turn it is keeps a job sorted. -/
theorem Sorted.modifyCurrent (h : job.Sorted config) (change : JobStep → JobStep) :
    (job.modifyCurrent change).Sorted config where
  within := by
    rw [length_modifyCurrent]
    exact h.within
  before k s hs hk := by
    have hne : job.currentStep ≠ k := Nat.ne_of_gt hk
    rw [getElem?_modifyCurrent, if_neg hne] at hs
    exact h.before k s hs hk
  after k s hs hk := by
    have hne : job.currentStep ≠ k := Nat.ne_of_lt hk
    rw [getElem?_modifyCurrent, if_neg hne] at hs
    exact h.after k s hs hk

/-- The step whose turn it is has not been tried more often than allowed, and it has been tried. -/
theorem Sorted.completeStep (h : job.Sorted config) {s : JobStep} (hs : job.current? = some s)
    (htried : s.attempts ≠ 0) (hallowed : config.Allows s) :
    job.completeStep.Sorted config ∧ ∀ t, job.completeStep.current? = some t → t.Untouched := by
  have hmodified := h.modifyCurrent fun s => { s with status := .completed }
  have hlt : job.currentStep < job.steps.length := (List.getElem?_eq_some_iff.1 hs).1
  have hlength : job.completeStep.steps.length = job.steps.length := length_modifyCurrent ..
  have hafter (k : Nat) (t : JobStep) (ht : job.completeStep.steps[k]? = some t)
      (hk : job.currentStep < k) : t.Untouched := hmodified.after k t ht hk
  refine ⟨⟨?_, fun k t ht hk => ?_, fun k t ht hk => ?_⟩, fun t ht => ?_⟩
  · rw [hlength]
    exact hlt
  · rcases Nat.lt_succ_iff_lt_or_eq.1 hk with hbefore | rfl
    · exact hmodified.before k t ht hbefore
    · have hdone : (job.modifyCurrent fun s => { s with status := .completed }).current? = some t :=
        ht
      rw [current?_modifyCurrent, hs] at hdone
      obtain rfl := Option.some.inj hdone
      exact ⟨rfl, htried, hallowed⟩
  · exact hafter k t ht (Nat.lt_of_succ_lt hk)
  · exact hafter _ t ht (Nat.lt_succ_self _)

/-- The steps are those that were submitted; they are in order, and none was tried more often than
its policy allows. -/
structure Ordered (config : Config) (steps : List JobStep) (job : Job) : Prop where
  about : job.steps.map (fun s => (s.definition, s.properties)) =
    steps.map fun s => (s.definition, s.properties)
  within : job.currentStep ≤ job.steps.length
  before : ∀ k s, job.steps[k]? = some s → k < job.currentStep →
    s.status = .completed ∧ s.attempts ≠ 0
  after : ∀ k s, job.steps[k]? = some s → job.currentStep < k → s.Untouched
  budget : ∀ (k : Nat) (s t : JobStep), job.steps[k]? = some s → steps[k]? = some t →
    s.attempts.toNat ≤ (config.policyFor t).budget

/-- What every record of a job with these steps says. -/
structure Coherent (config : Config) (steps : List JobStep) (job : Job) : Prop
    extends Ordered config steps job where
  created : job.state = .created →
    job.currentStep = 0 ∧ ∀ s, job.steps.head? = some s → s.Untouched
  completed : job.state = .completed → job.currentStep = job.steps.length
  failed : job.state = .stepFailed → (∃ text, job.lastError = some text ∧ text ≠ "") ∧
    (job.currentStep = job.steps.length ∨ ∃ s, job.current? = some s ∧ s.status = .failed)
  stopped : job.state = .stopped →
    ∀ s, job.current? = some s → s.attempts ≠ 0 → s.status = .cancelled
  settled : job.state.isTerminal = true → ∀ s ∈ job.steps, s.status ≠ .running

/-- A sorted job with the steps that it was submitted with is ordered if the step whose turn it is
is within its policy. -/
theorem Sorted.ordered (h : job.Sorted config)
    (hplan : job.steps.map JobStep.plan = steps.map JobStep.plan)
    (hcurrent : ∀ s, job.current? = some s → config.Allows s) : job.Ordered config steps where
  about := by
    have habout := congrArg (List.map fun s => (s.definition, s.properties)) hplan
    simpa [JobStep.plan, Function.comp_def] using habout
  within := h.within
  before k s hs hk := ⟨(h.before k s hs hk).status, (h.before k s hs hk).tried⟩
  after := h.after
  budget k s t hs ht := by
    have hsame := congrArg (fun l => l[k]?) hplan
    simp only [List.getElem?_map, hs, ht, Option.map_some, Option.some.injEq] at hsame
    have hpolicy : config.policyFor t = config.policyFor s :=
      (congrArg config.policyFor hsame).symm
    rw [hpolicy]
    rcases Nat.lt_trichotomy k job.currentStep with hbefore | rfl | hafter
    · exact (h.before k s hs hbefore).allowed
    · exact hcurrent s hs
    · exact (h.after k s hs hafter).allowed config

/-- As long as a job goes on, there is nothing more to say. -/
theorem Ordered.coherent (h : job.Ordered config steps) (hcreated : job.state ≠ .created)
    (hstate : job.state.isTerminal = false) : job.Coherent config steps where
  toOrdered := h
  created hc := (hcreated hc).elim
  completed hc := by rw [hc] at hstate; cases hstate
  failed hc := by rw [hc] at hstate; cases hstate
  stopped hc := by rw [hc] at hstate; cases hstate
  settled hc := by rw [hc] at hstate; cases hstate

/-- The first record of a job. -/
theorem coherent_new (config : Config) (id : JobId) (target : String) (nowMs : UInt64)
    (h : ∀ s ∈ steps, s.Untouched) : (Job.new id target steps nowMs).Coherent config steps := by
  have hsorted := sorted_new config id target nowMs h
  have hmem (s : JobStep) (hs : (Job.new id target steps nowMs).current? = some s) : s ∈ steps :=
    List.mem_of_getElem? hs
  refine ⟨hsorted.ordered rfl fun s hs => (h s (hmem s hs)).allowed config, fun _ => ⟨rfl, ?_⟩,
    nofun, nofun, nofun, nofun⟩
  exact fun s hs => h s (List.mem_of_head? hs)

/-- In an ordered job only the step whose turn it is can be running. -/
theorem Ordered.settled (h : job.Ordered config steps)
    (hcurrent : ∀ s, job.current? = some s → s.status ≠ .running) :
    ∀ s ∈ job.steps, s.status ≠ .running := by
  intro s hs hrunning
  obtain ⟨k, hk⟩ := List.getElem?_of_mem hs
  rcases Nat.lt_trichotomy k job.currentStep with hbefore | rfl | hafter
  · cases hrunning.symm.trans (h.before k s hk hbefore).1
  · exact hcurrent s hk hrunning
  · cases hrunning.symm.trans (h.after k s hk hafter).status

private theorem current?_recorded (h : job.currentStep < 2 ^ 32) :
    job.recorded.current? = job.current?.map JobStep.recorded := by
  have hcurrent : job.recorded.currentStep = job.currentStep :=
    UInt32.toNat_ofNat_of_lt' h
  rw [current?, hcurrent]
  exact List.getElem?_map ..

private theorem untouched_recorded {s : JobStep} (h : s.Untouched) : s.recorded.Untouched where
  status := h.status
  attempts := h.attempts
  lastError := by simp [JobStep.recorded, h.lastError]

/-- What a record says can be read back from it. -/
theorem Coherent.recorded (h : job.Coherent config steps) (hlt : steps.length < 2 ^ 32) :
    job.recorded.Coherent config steps := by
  have hlength : job.steps.length = steps.length := by
    simpa using congrArg List.length h.about
  have hbound : job.currentStep < 2 ^ 32 := by
    have hwithin := h.within
    omega
  have hcurrent : job.recorded.currentStep = job.currentStep :=
    UInt32.toNat_ofNat_of_lt' hbound
  have hsteps : job.recorded.steps = job.steps.map JobStep.recorded := rfl
  have hget (k : Nat) (s : JobStep) (hs : job.recorded.steps[k]? = some s) :
      ∃ t, job.steps[k]? = some t ∧ s = t.recorded := by
    rw [hsteps, List.getElem?_map] at hs
    obtain ⟨t, ht, rfl⟩ := Option.map_eq_some_iff.1 hs
    exact ⟨t, ht, rfl⟩
  have hcurrent? := current?_recorded hbound
  refine ⟨⟨?_, ?_, fun k s hs hk => ?_, fun k s hs hk => ?_, fun k s t hs ht => ?_⟩, fun hc => ?_,
    fun hc => ?_, fun hc => ?_, fun hc s hs htried => ?_, fun hc s hs => ?_⟩
  · rw [← h.about, hsteps, List.map_map]
    rfl
  · rw [hcurrent, hsteps, List.length_map]
    exact h.within
  · obtain ⟨t, ht, rfl⟩ := hget k s hs
    exact h.before k t ht (hcurrent ▸ hk)
  · obtain ⟨t, ht, rfl⟩ := hget k s hs
    exact untouched_recorded (h.after k t ht (hcurrent ▸ hk))
  · obtain ⟨s', hs', rfl⟩ := hget k s hs
    exact h.budget k s' t hs' ht
  · obtain ⟨hzero, hfirst⟩ := h.created hc
    refine ⟨hcurrent.trans hzero, fun s hs => ?_⟩
    rw [hsteps, List.head?_map] at hs
    obtain ⟨t, ht, rfl⟩ := Option.map_eq_some_iff.1 hs
    exact untouched_recorded (hfirst t ht)
  · rw [hcurrent, hsteps, List.length_map]
    exact h.completed hc
  · obtain ⟨⟨text, htext, hne⟩, hfailed⟩ := h.failed hc
    refine ⟨⟨text, ?_, hne⟩, ?_⟩
    · have hrecorded : job.recorded.lastError = job.lastError.bind nonEmpty? := rfl
      rw [hrecorded, htext, Option.bind_some, nonEmpty?, if_neg (by simpa using hne)]
    · rcases hfailed with hend | ⟨s, hs, hstatus⟩
      · left
        rw [hcurrent, hsteps, List.length_map]
        exact hend
      · right
        refine ⟨s.recorded, ?_, hstatus⟩
        rw [hcurrent?, hs]
        rfl
  · rw [hcurrent?] at hs
    obtain ⟨t, ht, rfl⟩ := Option.map_eq_some_iff.1 hs
    exact h.stopped hc t ht htried
  · rw [hsteps] at hs
    obtain ⟨t, ht, rfl⟩ := List.mem_map.1 hs
    exact h.settled hc t ht

end Job

end Flotilla
