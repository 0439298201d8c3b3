import Flotilla.Proofs.Worker.Order

/-!
# The course of a job

What becomes of a job that nobody stops is laid down by what becomes of each attempt. Its steps are
tried in order, each until an attempt succeeds, fails in a way that rules out another one, or uses
up the policy (`Trial.attempts`). The first step that fails ends the job, and so does one that no
definition is known for (`Config.course`). Nothing here knows of stages or of a store.
-/

namespace Flotilla

/-- What becomes of an attempt. -/
inductive Verdict where
  /-- Its start cannot be recorded. -/
  | startRefused (fault : Fault)
  /-- What it does fails. -/
  | failed (fault : Fault)
  /-- Its success cannot be recorded. -/
  | endRefused (fault : Fault)
  | succeeded

namespace Verdict

/-- What is wrong with the attempt. -/
def fault? : Verdict → Option Fault
  | .startRefused fault | .failed fault | .endRefused fault => some fault
  | .succeeded => none

/-- What is heard of the record of its start. -/
def start : Verdict → Except Fault Unit
  | .startRefused fault => .error fault
  | .failed _ | .endRefused _ | .succeeded => .ok ()

/-- What it comes to. -/
def outcome : Verdict → Except Fault Unit
  | .failed fault => .error fault
  | .startRefused _ | .endRefused _ | .succeeded => .ok ()

/-- What is heard of the record of its success. -/
def ending : Verdict → Except Fault Unit
  | .endRefused fault => .error fault
  | .startRefused _ | .failed _ | .succeeded => .ok ()

/-- Whether no other attempt follows, however many the policy allows. -/
def isFinal (v : Verdict) : Bool := v.fault?.all fun fault => fault.isFatal || !fault.isRetryable

/-- A fault at the start of an attempt is the fault of the attempt. -/
theorem fault?_of_start {v : Verdict} {fault : Fault} (h : v.start = .error fault) :
    v.fault? = some fault := by
  cases v <;> cases h
  rfl

/-- A fault that an attempt comes to is the fault of the attempt. -/
theorem fault?_of_outcome {v : Verdict} {fault : Fault} (h : v.outcome = .error fault) :
    v.fault? = some fault := by
  cases v <;> cases h
  rfl

/-- A fault at the end of an attempt is the fault of the attempt. -/
theorem fault?_of_ending {v : Verdict} {fault : Fault} (h : v.ending = .error fault) :
    v.fault? = some fault := by
  cases v <;> cases h
  rfl

/-- An attempt with which nothing is wrong has succeeded. -/
theorem eq_succeeded {v : Verdict} (hstart : v.start = .ok ()) (houtcome : v.outcome = .ok ())
    (hending : v.ending = .ok ()) : v = .succeeded := by
  cases v with
  | startRefused => cases hstart
  | failed => cases houtcome
  | endRefused => cases hending
  | succeeded => rfl

end Verdict

/-- What becomes of the attempts at a step, which are counted from one. -/
abbrev Trial := Nat → Verdict

namespace Trial

/-- The attempts that are made at a step: up to the first one that no other follows, or as many as
are allowed. -/
def attempts (t : Trial) (budget : Nat) : Nat :=
  ((List.range' 1 budget).find? fun k => (t k).isFinal).getD budget

/-- What was wrong with the last of the first attempts that failed. -/
def lastFault? (t : Trial) : Nat → Option Fault
  | 0 => none
  | k + 1 => (t (k + 1)).fault?.or (t.lastFault? k)

/-- None of the first attempts rules out another one. -/
def Goes (t : Trial) (k : Nat) : Prop := ∀ j, 1 ≤ j → j ≤ k → (t j).isFinal = false

variable {t : Trial} {budget k : Nat}

/-- Before its first attempt, a trial goes on. -/
theorem goes_zero : t.Goes 0 := by
  intro j hj hle
  omega

/-- An attempt that is not the last lets a trial go on. -/
theorem Goes.succ (h : t.Goes k) (hnext : (t (k + 1)).isFinal = false) : t.Goes (k + 1) := by
  intro j hj hle
  rcases Nat.lt_or_eq_of_le hle with hlt | rfl
  · exact h j hj (Nat.le_of_lt_succ hlt)
  · exact hnext

/-- A trial ends with the first attempt that is final or uses up the budget. -/
theorem attempts_eq (hbefore : t.Goes k) (hle : k + 1 ≤ budget)
    (hend : (t (k + 1)).isFinal = true ∨ k + 1 = budget) : t.attempts budget = k + 1 := by
  by_cases hfinal : (t (k + 1)).isFinal = true
  · have hfirst : (List.range' 1 budget).find? (fun k => (t k).isFinal) = some (k + 1) := by
      rw [List.find?_range'_eq_some]
      refine ⟨hfinal, List.mem_range'_1.2 (by omega), fun j hj hlt => ?_⟩
      simp [hbefore j hj (by omega)]
    simp [attempts, hfirst]
  · have hlast := hend.resolve_left hfinal
    have hnone : (List.range' 1 budget).find? (fun k => (t k).isFinal) = none := by
      rw [List.find?_eq_none]
      intro j hj
      have hrange := List.mem_range'_1.1 hj
      rcases Nat.lt_or_eq_of_le (show j ≤ k + 1 by omega) with hlt | rfl
      · simp [hbefore j hrange.1 (by omega)]
      · exact hfinal
    simp [attempts, hnone, hlast]

end Trial

/-- A step after some attempts; its error is that of the last one that failed among the first
`ended` of them. -/
def JobStep.after (s : JobStep) (t : Trial) (status : StepStatus) (attempts ended : Nat) :
    JobStep :=
  { s with
    status
    attempts := UInt32.ofNat attempts
    lastError := (t.lastFault? ended).map Fault.message }

/-- A step that has not been touched is that step after no attempts. -/
theorem JobStep.Untouched.eq_after {s : JobStep} (h : s.Untouched) (t : Trial) :
    s.after t .pending 0 0 = s := by
  obtain ⟨hstatus, hattempts, hlastError⟩ := h
  cases s
  simp_all [after, Trial.lastFault?]

namespace JobStep

variable {t : Trial} {k ended : Nat} {fault : Fault}

/-- The step has counted its attempts. -/
theorem toNat_attempts_after (s : JobStep) (t : Trial) (status : StepStatus) (ended : Nat)
    (hk : k < 2 ^ 32) : (s.after t status k ended).attempts.toNat = k :=
  UInt32.toNat_ofNat_of_lt' hk

/-- A step at the start of another attempt. -/
theorem begun_after (s : JobStep) (t : Trial) (status : StepStatus) (k : Nat) :
    { s.after t status k ended with
      attempts := (s.after t status k ended).attempts + 1, status := .running } =
        s.after t .running (k + 1) ended := by
  have hattempts : UInt32.ofNat k + 1 = UInt32.ofNat (k + 1) := (UInt32.ofNat_add k 1).symm
  unfold after
  dsimp only
  rw [hattempts]

/-- A step after a failed attempt. -/
theorem failed_after (s : JobStep) (before status : StepStatus)
    (hfault : (t (k + 1)).fault? = some fault) :
    { s.after t before (k + 1) k with lastError := some fault.message, status } =
      s.after t status (k + 1) (k + 1) := by
  simp [after, Trial.lastFault?, hfault]

end JobStep

/-- How a job ends. -/
structure Course where
  /-- What has become of its steps. -/
  steps : List JobStep
  /-- The index of the step whose turn it is. -/
  current : Nat
  /-- What has ended it, unless all its steps succeeded. -/
  failure : Option Fault

namespace Course

/-- The course with steps that are done in front. -/
def behind (c : Course) (done : List JobStep) : Course := { c with steps := done ++ c.steps }

/-- The event that ends the job. -/
def event (c : Course) : JobEvent :=
  match c.failure with
  | none => .allStepsCompleted
  | some fault => if fault.isFatal then .fatalError else .stepExhausted

/-- The state that the job ends in. -/
def state (c : Course) : JobState := if c.failure.isSome then .stepFailed else .completed

/-- A job at its end. -/
def job (c : Course) (submitted : Job) : Job :=
  { submitted with
    steps := c.steps
    currentStep := c.current
    state := c.state
    lastError := c.failure.map Fault.message }

/-- Two rows of steps that are done can be put in front one after the other. -/
theorem behind_behind (c : Course) (done more : List JobStep) :
    (c.behind more).behind done = c.behind (done ++ more) := by
  simp [behind, List.append_assoc]

/-- The event that ends the job leads from its running to its last state. -/
theorem next?_event (c : Course) : JobState.running.next? c.event = some c.state := by
  unfold event state
  cases c.failure with
  | none => rfl
  | some fault =>
    dsimp only
    split <;> rfl

end Course

namespace Job

/-- A job without its state and the time of its last record. -/
def bare (j : Job) : Job := { j with state := .created, updatedAtMs := 0 }

@[simp] theorem current?_bare (j : Job) : j.bare.current? = j.current? := rfl

/-- The closing policy does not depend on times and state. -/
theorem closingPolicy_of_bare {j j' : Job} (config : Config) (h : j.bare = j'.bare) :
    config.closingPolicy j = config.closingPolicy j' := by
  have hbare (j : Job) : config.closingPolicy j = config.closingPolicy j.bare := rfl
  rw [hbare j, hbare j', h]

/-- A job with these steps behind it and those ahead of it. -/
def along (j : Job) (done ahead : List JobStep) : Job :=
  { j with steps := done ++ ahead, currentStep := done.length }

variable {j : Job} {done ahead : List JobStep} {s : JobStep}

@[simp] theorem current?_along : (j.along done ahead).current? = ahead.head? := by
  cases ahead <;> simp [along, current?]

@[simp] theorem modifyCurrent_along (change : JobStep → JobStep) :
    (j.along done (s :: ahead)).modifyCurrent change = j.along done (change s :: ahead) := by
  have hmodify : (done ++ s :: ahead).modify done.length change = done ++ change s :: ahead := by
    rw [List.modify_eq_take_drop]
    simp
  simp [along, modifyCurrent, modifyStep, hmodify]

/-- Completing the step whose turn it is makes it one of those that are done. -/
theorem completeStep_along :
    (j.along done (s :: ahead)).completeStep =
      j.along (done ++ [{ s with status := .completed }]) ahead := by
  rw [completeStep, modifyCurrent_along]
  simp [along]

end Job

/-- How a job ends that has these steps ahead of it, the first of which has this index. -/
def Config.course (config : Config) (registry : Registry) (trials : Nat → Trial) :
    Nat → List JobStep → Course
  | index, [] => ⟨[], index, none⟩
  | index, s :: rest =>
    let k := (trials index).attempts (config.policyFor s).budget
    match registry.lookup s.definition, (trials index k).fault? with
    | .error _, _ =>
      let fault := Fault.unknownStepDefinition s.definition
      ⟨{ s with status := .failed, lastError := some fault.message } :: rest, index, some fault⟩
    | .ok _, some fault => ⟨s.after (trials index) .failed k k :: rest, index, some fault⟩
    | .ok _, none =>
      (config.course registry trials (index + 1) rest).behind
        [s.after (trials index) .completed k k]

/-- The only fault of a lookup is that the definition is unknown. -/
theorem Registry.eq_of_lookup_error {registry : Registry} {key : String} {fault : Fault}
    (h : registry.lookup key = .error fault) : fault = .unknownStepDefinition key := by
  unfold lookup at h
  split at h
  · cases h
  · exact (Except.error.inj h).symm

section

variable {config : Config} {registry : Registry} {trials : Nat → Trial} {index k : Nat}
  {s : JobStep} {rest : List JobStep} {d : StepDefinition} {fault : Fault}

/-- A step with an unknown definition fails, and the job ends with it. -/
theorem course_of_unknown (h : registry.lookup s.definition = .error fault) :
    config.course registry trials index (s :: rest) =
      ⟨{ s with status := .failed, lastError := some fault.message } :: rest, index,
        some fault⟩ := by
  rw [Config.course, h, Registry.eq_of_lookup_error h]

/-- A step whose last attempt fails ends the job. -/
theorem course_of_fault (hd : registry.lookup s.definition = .ok d)
    (hbefore : (trials index).Goes k) (hle : k + 1 ≤ (config.policyFor s).budget)
    (hend : (trials index (k + 1)).isFinal = true ∨ k + 1 = (config.policyFor s).budget)
    (hfault : (trials index (k + 1)).fault? = some fault) :
    config.course registry trials index (s :: rest) =
      ⟨s.after (trials index) .failed (k + 1) (k + 1) :: rest, index, some fault⟩ := by
  have hattempts := Trial.attempts_eq hbefore hle hend
  rw [Config.course]
  dsimp only
  rw [hattempts, hd, hfault]

/-- A step whose last attempt succeeds is followed by the others. -/
theorem course_of_succeeded (hd : registry.lookup s.definition = .ok d)
    (hbefore : (trials index).Goes k) (hle : k + 1 ≤ (config.policyFor s).budget)
    (hend : trials index (k + 1) = .succeeded) :
    config.course registry trials index (s :: rest) =
      (config.course registry trials (index + 1) rest).behind
        [s.after (trials index) .completed (k + 1) k] := by
  have hfinal : (trials index (k + 1)).isFinal = true := by
    rw [hend]
    rfl
  have hattempts := Trial.attempts_eq hbefore hle (Or.inl hfinal)
  have hlast : (trials index).lastFault? (k + 1) = (trials index).lastFault? k := by
    simp [Trial.lastFault?, hend, Verdict.fault?]
  have hfault : (trials index (k + 1)).fault? = none := by
    rw [hend]
    rfl
  rw [Config.course]
  dsimp only
  rw [hattempts, hd, hfault]
  simp [JobStep.after, hlast]

end

end Flotilla
