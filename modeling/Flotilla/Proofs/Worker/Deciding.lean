import Flotilla.Worker.Decision

/-!
# What a worker can decide

Every decision of a worker has a few outcomes, and it comes to one of them for a reason. What holds
of a worker after a decision is read off these outcomes and reasons; nothing else looks into the
decisions themselves.
-/

namespace Flotilla

/-- The event that ends a job whose step failed for good. -/
def Fault.ending (fault : Fault) : JobEvent :=
  if fault.isFatal then .fatalError else .stepExhausted

/-- A fault ends a job as fatal, or as exhausted. -/
theorem Fault.ending_eq (fault : Fault) :
    fault.ending = .fatalError ∨ fault.ending = .stepExhausted := by
  unfold ending
  split
  · exact Or.inl rfl
  · exact Or.inr rfl

namespace Job

/-- The job with a fault noted at the step whose turn it is. -/
def noting (j : Job) (fault : Fault) (status : StepStatus) : Job :=
  j.modifyCurrent fun s => { s with lastError := some fault.message, status }

/-- Jobs whose turn it is at the same step, and which differ at most in what has become of it. -/
structure Resembles (j j' : Job) : Prop where
  target : j'.target = j.target
  currentStep : j'.currentStep = j.currentStep
  others : ∀ k, k ≠ j.currentStep → j'.steps[k]? = j.steps[k]?

/-- Jobs with the same target, steps and step whose turn it is resemble each other. -/
theorem Resembles.of_eq {j j' : Job} (htarget : j'.target = j.target)
    (hcurrent : j'.currentStep = j.currentStep) (hsteps : j'.steps = j.steps) : j.Resembles j' :=
  ⟨htarget, hcurrent, fun _ _ => by rw [hsteps]⟩

/-- A job resembles itself. -/
theorem Resembles.refl (j : Job) : j.Resembles j := .of_eq rfl rfl rfl

/-- What resembles a job that resembles another one resembles that one. -/
theorem Resembles.trans {j j' j'' : Job} (h : j.Resembles j') (k : j'.Resembles j'') :
    j.Resembles j'' where
  target := k.target.trans h.target
  currentStep := k.currentStep.trans h.currentStep
  others n hn := (k.others n (h.currentStep ▸ hn)).trans (h.others n hn)

/-- Changing the step whose turn it is leaves a job that resembles the old one. -/
theorem resembles_modifyCurrent (j : Job) (change : JobStep → JobStep) :
    j.Resembles (j.modifyCurrent change) where
  target := rfl
  currentStep := rfl
  others _ hk := List.getElem?_modify_ne change j.steps (Ne.symm hk)

/-- The job with what ended it. -/
def endedBy (j : Job) : Option Fault → Job
  | some fault => { j with lastError := some fault.message }
  | none => j

end Job

namespace JobEntry

/-- A worker that has come to the end of its job turns to the stop that was asked for, or to the
record of the end. -/
theorem conclude_cases (e : JobEntry) (config : Config) (event : JobEvent)
    (failure : Option Fault) :
    (e.phase = .stopRequested ∧ e.conclude config event failure = e.beginStop config) ∨
    (e.phase ≠ .stopRequested ∧ e.conclude config event failure =
      { e with
        phase := .finished
        job := e.job.endedBy failure
        stage := .moving event (config.closingPolicy (e.job.endedBy failure)) 0 }) := by
  unfold conclude
  split
  · next hphase => exact Or.inl ⟨hphase, rfl⟩
  · next hphase =>
    refine Or.inr ⟨hphase, ?_⟩
    cases failure <;> rfl

/-- A worker that looks for the next step finds that it is asked to stop, that there is none, that
nothing is known of it, or what it has to try. -/
theorem choose_cases (e : JobEntry) (config : Config) (registry : Registry) :
    (e.stop = true ∧ e.choose config registry = e.beginStop config) ∨
    (e.stop ≠ true ∧ e.job.current? = none ∧
      e.choose config registry = e.conclude config .allStepsCompleted none) ∨
    (e.stop ≠ true ∧ ∃ s fault, e.job.current? = some s ∧
      registry.lookup s.definition = .error fault ∧
      e.choose config registry =
        ({ e with job := e.job.noting fault .failed }).conclude config .fatalError (some fault)) ∨
    (e.stop ≠ true ∧ ∃ s d, e.job.current? = some s ∧ registry.lookup s.definition = .ok d ∧
      e.choose config registry =
        e.goTo (.starting ⟨d, config.policyFor s, d.declared s.properties⟩)) := by
  unfold choose
  split
  · next hstop => exact Or.inl ⟨hstop, rfl⟩
  · next hstop =>
    right
    cases hcurrent : e.job.current? with
    | none => exact Or.inl ⟨hstop, rfl, rfl⟩
    | some s =>
      right
      dsimp only
      cases hlookup : registry.lookup s.definition with
      | error fault => exact Or.inl ⟨hstop, s, fault, rfl, hlookup, rfl⟩
      | ok d => exact Or.inr ⟨hstop, s, d, rfl, hlookup, rfl⟩

/-- A worker whose attempt failed finds that it is asked to stop, that no other attempt may follow,
or that one does. -/
theorem attemptFailed_cases (e : JobEntry) (config : Config) (run : StepRun) (fault : Fault) :
    (e.stop = true ∧ e.attemptFailed config run fault = e.beginStop config) ∨
    (e.stop ≠ true ∧
      (fault.isFatal = true ∨ fault.isRetryable = false ∨
        run.policy.allowsAnother e.job.attempts = false) ∧
      e.attemptFailed config run fault =
        ({ e with job := e.job.noting fault .failed }).conclude config fault.ending (some fault)) ∨
    (e.stop ≠ true ∧ fault.isFatal = false ∧ fault.isRetryable = true ∧
      run.policy.allowsAnother e.job.attempts = true ∧
      e.attemptFailed config run fault =
        ({ e with job := e.job.noting fault .pending }).goTo (.pausing run)) := by
  unfold attemptFailed Fault.ending
  split
  · next hstop => exact Or.inl ⟨hstop, rfl⟩
  · next hstop =>
    right
    dsimp only
    split
    · next hfatal => exact Or.inl ⟨hstop, Or.inl hfatal, rfl⟩
    · next hfatal =>
      split
      · next hover =>
        left
        rw [Bool.or_eq_true, Bool.not_eq_true', Bool.not_eq_true'] at hover
        exact ⟨hstop, Or.inr hover, rfl⟩
      · next hagain =>
        right
        rw [Bool.or_eq_true, Bool.not_eq_true', Bool.not_eq_true', not_or] at hagain
        obtain ⟨hretry, hallows⟩ := hagain
        exact ⟨hstop, Bool.of_not_eq_true hfatal, Bool.of_not_eq_false hretry,
          Bool.of_not_eq_false hallows, rfl⟩

/-- After the record of a failed attempt the next one starts at once, or after the time that the
policy says. -/
theorem backOff_cases (e : JobEntry) (now : Nat) (run : StepRun) :
    (run.policy.delayAfter e.job.attempts = 0 ∧ e.backOff now run = e.goTo (.starting run)) ∨
    (run.policy.delayAfter e.job.attempts ≠ 0 ∧ e.backOff now run =
      e.goTo (.backingOff run (Nanos.wakeTime now (run.policy.delayAfter e.job.attempts)))) := by
  unfold backOff
  dsimp only
  split
  · next hzero => exact Or.inl ⟨hzero, rfl⟩
  · next hdelay => exact Or.inr ⟨hdelay, rfl⟩

/-- A worker whose move was refused tries it again, ends its job as failed instead of completed, or
gives up. -/
theorem moveRefused_cases (e : JobEntry) (now : Nat) (event : JobEvent) (policy : RetryPolicy)
    (tries : UInt32) (fault : Fault) :
    (fault.isRetryable = true ∧ policy.allowsAnother tries = true ∧
      e.moveRefused now event policy tries fault = e.goTo (.resting event policy tries
        (Nanos.wakeTime now (policy.delayAfter tries)))) ∨
    ((fault.isRetryable && policy.allowsAnother tries) = false ∧
      ((event = .allStepsCompleted ∧ e.moveRefused now event policy tries fault =
        ({ e with job := e.job.endedBy (some fault) }).goTo (.moving .stepExhausted .once 0)) ∨
      (event ≠ .allStepsCompleted ∧
        e.moveRefused now event policy tries fault = e.goTo (.leaving (.error fault))))) := by
  unfold moveRefused
  split
  · next hagain =>
    obtain ⟨hretry, hallows⟩ := Bool.and_eq_true_iff.1 hagain
    exact Or.inl ⟨hretry, hallows, rfl⟩
  · next hover =>
    refine Or.inr ⟨Bool.of_not_eq_true hover, ?_⟩
    split
    · next hevent => exact Or.inl ⟨hevent, rfl⟩
    · next hevent => exact Or.inr ⟨hevent, rfl⟩

end JobEntry

end Flotilla
