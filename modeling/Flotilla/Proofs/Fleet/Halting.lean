import Flotilla.Proofs.Fleet.Advancing
import Flotilla.Proofs.Fleet.Guidance
import Mathlib.Data.Prod.Lex

/-!
# Workers that come to their end

What a worker has before it is bounded: moves that it may try again, steps of the job, attempts at
one of them, and the rest of a program that it is in the middle of (`JobEntry.Nearer`). Every turn
in which it does not have to wait takes something off that (`JobEntry.nears_of_brings`), whatever it
hears. So a worker that gets such turns again and again leaves in the end (`Fleet.halts`).
-/

namespace Flotilla

/-- Running the program may come to wait in this way. -/
inductive Program.MayWait {α : Type} : Program Stepping α → Suspension α → Prop
  | reply (key : CorrelationKey) (next : Outcome → Program Stepping α) :
    MayWait (.ask (S := Stepping) (.await key) next) (.reply key next)
  | timer (span wakeAt : Nat) (next : Unit → Program Stepping α) :
    MayWait (.ask (S := Stepping) (.storing (.sleep span)) next) (.timer wakeAt next)
  | later {question : StepAsk} {next : Stepping.Answer question → Program Stepping α}
      {s : Suspension α} (answer : Stepping.Answer question) (h : MayWait (next answer) s) :
    MayWait (.ask (S := Stepping) question next) s

namespace Suspension

variable {α : Type}

/-- A program that waits can go on like this. -/
def Resumes : Suspension α → Program Stepping α → Prop
  | .reply _ next, program => ∃ outcome, program = next outcome
  | .timer _ next, program => program = next ()

/-- A program that waits can come to wait in another way later. -/
def After (s' s : Suspension α) : Prop := ∃ program, s.Resumes program ∧ program.MayWait s'

/-- What may still come in a program is well-founded. -/
theorem acc_of_mayWait (program : Program Stepping α) {s : Suspension α}
    (h : program.MayWait s) : Acc After s := by
  induction program generalizing s with
  | done value => cases h
  | ask question next ih =>
    cases h with
    | reply key next =>
      constructor
      rintro s' ⟨program, ⟨outcome, rfl⟩, hwaits⟩
      exact ih outcome hwaits
    | timer span wakeAt next =>
      constructor
      rintro s' ⟨program, rfl, hwaits⟩
      exact ih () hwaits
    | later answer h => exact ih answer h

/-- A program waits only so often. -/
theorem wf_after : WellFounded (@After α) := by
  constructor
  intro s
  cases s with
  | reply key next => exact acc_of_mayWait _ (.reply key next)
  | timer wakeAt next => exact acc_of_mayWait _ (.timer 0 wakeAt next)

end Suspension

namespace Fleet

variable {α : Type} {f : Fleet}

/-- A program is resumed where it was left. -/
theorem resumes_of_resume? {s : Suspension α} {program : Program Stepping α}
    (h : f.resume? s = some program) : s.Resumes program := by
  cases s with
  | reply key next =>
    obtain ⟨outcome, -, rfl⟩ := Option.map_eq_some_iff.1 h
    exact ⟨outcome, rfl⟩
  | timer wakeAt next =>
    rw [resume?] at h
    split at h
    · exact (Option.some.inj h).symm
    · cases h

/-- A program waits only at one of the places where it can. -/
theorem mayWait_run (id : JobId) (target : String) (program : Program Stepping α) {f : Fleet}
    {s : Suspension α} (h : (f.run id target program).1 = .inl s) : program.MayWait s := by
  induction program generalizing f with
  | done value => cases h
  | ask question next ih =>
    cases question with
    | storing q =>
      cases q with
      | store q => exact .later _ (ih _ h)
      | sleep span =>
        rw [run] at h
        split at h
        · have hrest : (next ()).MayWait s := ih () h
          exact .later _ hrest
        · obtain rfl := Sum.inl.inj h
          exact .timer span _ next
    | send command payload timeout => exact .later _ (ih _ h)
    | await key =>
      rw [run] at h
      split at h
      · exact .later _ (ih _ h)
      · obtain rfl := Sum.inl.inj h
        exact .reply key next
    | stopSelf => exact .later _ (ih _ h)
    | note note =>
      have hrest : (next ()).MayWait s := ih () h
      exact .later _ hrest

end Fleet

/-- A worker that waits in the middle of a program waits in another place of it. -/
inductive Stage.After : Stage → Stage → Prop
  | waiting (run run' : StepRun) {s s' : Suspension (Except Fault Unit)} (h : s'.After s) :
    After (.waiting run' s') (.waiting run s)

private theorem Stage.wf_after : WellFounded Stage.After := by
  have hwaiting (s : Suspension (Except Fault Unit)) (run : StepRun) :
      Acc Stage.After (.waiting run s) := by
    induction s using Suspension.wf_after.induction generalizing run with
    | _ s ih =>
      constructor
      rintro _ ⟨_, run', h⟩
      exact ih _ h run'
  constructor
  intro stage
  cases stage with
  | waiting run s => exact hwaiting s run
  | _ =>
    constructor
    intro before h
    cases h

/-- The order of the moves: the later ones have the smaller numbers. -/
def JobEvent.rank : JobEvent → Nat
  | .start => 8
  | .allStepsCompleted => 5
  | .stepExhausted | .fatalError => 4
  | .stopRequested => 3
  | .stopSettled => 2

private theorem Fault.rank_ending (fault : Fault) : fault.ending.rank < 7 := by
  rcases fault.ending_eq with hending | hending
  · rw [hending]
    decide
  · rw [hending]
    decide

/-- The part of its life that a worker is in, and how much is left of that part. -/
abbrev Distance := Nat ×ₗ Nat ×ₗ Nat

/-- So far from the end: first the part counts, then the steps, then the turns. -/
def Distance.of (part steps turns : Nat) : Distance := toLex (part, toLex (steps, turns))

namespace Distance

variable {part part' steps steps' turns turns' : Nat}

private theorem of_lt_of_part (h : part' < part) : of part' steps' turns' < of part steps turns :=
  Prod.Lex.toLex_lt_toLex.2 (Or.inl h)

private theorem of_lt_of_steps (h : steps' < steps) : of part steps' turns' < of part steps turns :=
  Prod.Lex.toLex_lt_toLex.2 (Or.inr ⟨rfl, Prod.Lex.toLex_lt_toLex.2 (Or.inl h)⟩)

private theorem of_lt_of_turns (h : turns' < turns) : of part steps turns' < of part steps turns :=
  Prod.Lex.toLex_lt_toLex.2 (Or.inr ⟨rfl, Prod.Lex.toLex_lt_toLex.2 (Or.inr ⟨rfl, h⟩)⟩)

end Distance

/-- How far from its end a worker is at a stage. -/
def Stage.distance (job : Job) : Stage → Distance
  | .queued => .of 9 0 0
  | .moving event policy tries => .of event.rank 0 (2 * (policy.budget - tries.toNat))
  | .resting event policy tries _ => .of event.rank 0 (2 * (policy.budget - tries.toNat) + 1)
  | .choosing => .of 7 (2 * (job.steps.length - job.currentStep) + 1) 0
  | .starting run => running run 0
  | .backingOff run _ => running run 1
  | .pausing run => running run 2
  | .succeeding run => running run 3
  | .waiting run _ => running run 4
  | .acting run _ => running run 5
  | .leaving _ => .of 1 0 0
  | .gone => .of 0 0 0
where
  /-- How far it is with an attempt at the step whose turn it is. -/
  running (run : StepRun) (turns : Nat) : Distance :=
    .of 7 (2 * (job.steps.length - job.currentStep))
      (6 * (run.policy.budget - job.attempts.toNat) + turns)

/-- The tries that have failed leave at least one more. -/
def Stage.Counted : Stage → Prop
  | .moving _ policy tries | .resting _ policy tries _ => tries.toNat < policy.budget
  | .queued | .choosing | .starting _ | .acting .. | .waiting .. | .succeeding _ | .pausing _
  | .backingOff .. | .leaving _ | .gone => True

namespace JobEntry

/-- The worker is nearer to its end than it was. -/
def Nearer (e' e : JobEntry) : Prop :=
  Prod.Lex (· < ·) Stage.After (e'.stage.distance e'.job, e'.stage)
    (e.stage.distance e.job, e.stage)

/-- No worker gets nearer to its end for ever. -/
theorem wf_nearer : WellFounded Nearer :=
  InvImage.wf _ (WellFounded.prod_lex wellFounded_lt Stage.wf_after)

/-- The worker gets nearer to its end, and does not try anything too often. -/
structure Nears (e e' : JobEntry) : Prop where
  nearer : e'.Nearer e
  counted : e'.stage.Counted

/-- The worker is at a stage at which a turn changes nothing: it has to wait for a permit, for time
to pass or for a reply, or it has left. -/
def Blocked (f : Fleet) (id : JobId) (e : JobEntry) : Prop :=
  match e.stage with
  | .queued => (f.permits.acquire id).1 = false
  | .resting _ _ _ wakeAt => f.now < wakeAt
  | .backingOff _ wakeAt => e.stop = false ∧ f.now < wakeAt
  | .waiting _ suspension => e.stop = false ∧ f.resume? suspension = none
  | .gone => True
  | .moving .. | .choosing | .starting _ | .acting .. | .succeeding _ | .pausing _ | .leaving _ =>
    False

variable {e e' : JobEntry} {config : Config} {run : StepRun} {steps : List JobStep}

private theorem nears_of_lt (h : e'.stage.distance e'.job < e.stage.distance e.job)
    (hcounted : e'.stage.Counted) : e.Nears e' :=
  ⟨Prod.Lex.left _ _ h, hcounted⟩

/-- The worker is about to record for the first time how its job ends. -/
def Concludes (e : JobEntry) : Prop :=
  ∃ event policy, e.stage = .moving event policy 0 ∧ event.rank < 7

private theorem Concludes.nears (h : e'.Concludes) {count turns : Nat}
    (hdistance : e.stage.distance e.job = .of 7 count turns) : e.Nears e' := by
  obtain ⟨event, policy, hstage, hrank⟩ := h
  apply nears_of_lt
  · rw [hstage, hdistance]
    exact Distance.of_lt_of_part hrank
  · rw [hstage]
    exact policy.budget_pos

private theorem concludes_beginStop (e : JobEntry) (config : Config) :
    (e.beginStop config).Concludes :=
  ⟨.stopRequested, config.defaultRetry, rfl, by decide⟩

private theorem concludes_conclude (e : JobEntry) (config : Config) {event : JobEvent}
    (hrank : event.rank < 7) (failure : Option Fault) :
    (e.conclude config event failure).Concludes := by
  obtain ⟨-, hc⟩ | ⟨-, hc⟩ := e.conclude_cases config event failure
  · rw [hc]
    exact e.concludes_beginStop config
  · rw [hc]
    exact ⟨event, _, rfl, hrank⟩

/-- A worker that takes up a step gets nearer to its end. -/
theorem nears_choose (config : Config) (registry : Registry) (hstage : e.stage = .choosing) :
    e.Nears (e.choose config registry) := by
  have hdistance : e.stage.distance e.job =
      .of 7 (2 * (e.job.steps.length - e.job.currentStep) + 1) 0 := by
    rw [hstage]
    rfl
  obtain ⟨-, hc⟩ | ⟨-, -, hc⟩ | ⟨-, s, fault, -, -, hc⟩ | ⟨-, s, d, -, -, hc⟩ :=
    e.choose_cases config registry
  · rw [hc]
    exact (e.concludes_beginStop config).nears hdistance
  · rw [hc]
    exact (e.concludes_conclude config (by decide) none).nears hdistance
  · rw [hc]
    exact (concludes_conclude _ config (by decide) (some fault)).nears hdistance
  · rw [hc]
    refine nears_of_lt ?_ trivial
    rw [hdistance]
    exact Distance.of_lt_of_steps (Nat.lt_succ_self _)

/-- A worker whose move is refused has one try less. -/
theorem nears_moveRefused (e : JobEntry) {job : Job} (now : Nat) {event : JobEvent}
    {policy : RetryPolicy} {tries : UInt32} (hstage : e.stage = .moving event policy tries)
    (hcounted : tries.toNat < policy.budget) (fault : Fault) :
    e.Nears (({ e with job }).moveRefused now event policy (tries + 1) fault) := by
  obtain ⟨hcount, hallows⟩ := RetryPolicy.allowsAnother_succ hcounted
  obtain ⟨-, hagain, hc⟩ | ⟨-, ⟨hevent, hc⟩ | ⟨-, hc⟩⟩ :=
    ({ e with job }).moveRefused_cases now event policy (tries + 1) fault
  · have hleft := hallows.1 hagain
    rw [hc]
    refine nears_of_lt ?_ (hcount.trans_lt hleft)
    rw [hstage]
    apply Distance.of_lt_of_turns
    omega
  · subst hevent
    rw [hc]
    refine nears_of_lt ?_ RetryPolicy.once.budget_pos
    rw [hstage]
    exact Distance.of_lt_of_part (by decide)
  · rw [hc]
    refine nears_of_lt ?_ trivial
    rw [hstage]
    apply Distance.of_lt_of_part
    cases event <;> decide

/-- A worker whose move is recorded gets nearer to its end. -/
theorem nears_moved (e : JobEntry) {snapshot job : Job} (config : Config) {event : JobEvent}
    {policy : RetryPolicy} {tries : UInt32} (hstage : e.stage = .moving event policy tries) :
    e.Nears (({ e with snapshot, job }).moved config event) := by
  cases event with
  | stopRequested =>
    refine nears_of_lt ?_ config.defaultRetry.budget_pos
    rw [hstage]
    exact Distance.of_lt_of_part (by decide)
  | start | allStepsCompleted | stepExhausted | fatalError | stopSettled =>
    refine nears_of_lt ?_ trivial
    rw [hstage]
    exact Distance.of_lt_of_part (by decide)

/-- A failure of an attempt that is under way. -/
theorem nears_attemptFailed {turns : Nat} (config : Config) (fault : Fault)
    (hdistance : e.stage.distance e.job =
      .of 7 (2 * (e.job.steps.length - e.job.currentStep)) turns)
    (hlength : e'.job.steps.length = e.job.steps.length)
    (hcurrent : e'.job.currentStep = e.job.currentStep)
    (hattempts : 6 * (run.policy.budget - e'.job.attempts.toNat) + 2 < turns) :
    e.Nears (e'.attemptFailed config run fault) := by
  obtain ⟨-, hc⟩ | ⟨-, -, hc⟩ | ⟨-, -, -, -, hc⟩ := e'.attemptFailed_cases config run fault
  · rw [hc]
    exact (e'.concludes_beginStop config).nears hdistance
  · rw [hc]
    exact (concludes_conclude _ config fault.rank_ending (some fault)).nears hdistance
  · -- the fault is noted without another attempt being counted
    rw [hc]
    refine nears_of_lt ?_ trivial
    change Stage.distance.running (e'.job.noting fault .pending) run 2 < _
    rw [hdistance, Stage.distance.running, Job.attempts_noting, Job.noting,
      Job.length_modifyCurrent, ← hlength, ← hcurrent]
    exact Distance.of_lt_of_turns hattempts

/-- A program of an attempt has run. -/
theorem nears_afterRun {e₁ : JobEntry} {turns : Nat} (ha : e.MayBeAsked e₁) (config : Config)
    (hdistance : e.stage.distance e.job = Stage.distance.running e.job run turns)
    (hturns : 4 ≤ turns) (result : Suspension (Except Fault Unit) ⊕ Except Fault Unit)
    (hwaits : ∀ s, result = .inl s → turns = 4 → Stage.After (.waiting run s) e.stage) :
    e.Nears (e₁.afterRun config run result) := by
  have hjob : e₁.job = e.job := by
    rcases ha with rfl | ⟨-, rfl⟩ <;> rfl
  rw [Stage.distance.running] at hdistance
  rcases result with suspension | fault | ⟨⟩
  · refine ⟨Prod.lex_def.2 ?_, trivial⟩
    dsimp only
    change Stage.distance.running e₁.job run 4 < _ ∨ Stage.distance.running e₁.job run 4 = _ ∧ _
    rw [hdistance, hjob, Stage.distance.running]
    rcases Nat.lt_or_eq_of_le hturns with hlt | rfl
    · left
      apply Distance.of_lt_of_turns
      omega
    · exact Or.inr ⟨rfl, hwaits suspension rfl rfl⟩
  · refine nears_attemptFailed config fault hdistance ?_ ?_ ?_
    · rw [hjob]
    · rw [hjob]
    · rw [hjob]
      omega
  · refine nears_of_lt ?_ trivial
    change Stage.distance.running e₁.job run 3 < _
    rw [hdistance, hjob]
    apply Distance.of_lt_of_turns
    omega

variable {f : Fleet} {id : JobId}

/-- The start of an attempt leaves one attempt less. -/
theorem Advances.nears_starting (h : e.Advances steps f.config) (hstage : e.stage = .starting run)
    (hbrings : (Work.record e.job.beginAttempt false (afterStart f.config run)).Brings f id e e') :
    e.Nears e' := by
  have hexpects := h.expects
  rw [hstage] at hexpects
  obtain ⟨s, hs, hpolicy, hready⟩ := hexpects
  have hdistance : e.stage.distance e.job = Stage.distance.running e.job run 0 := by
    rw [hstage]
    rfl
  have hlength : e.job.beginAttempt.steps.length = e.job.steps.length := Job.length_modifyCurrent ..
  have hbudget : s.attempts.toNat + 1 ≤ run.policy.budget := by
    rw [← hready.toNat_attempts, hpolicy]
    exact hready.begun.allowed
  have hless : 6 * (run.policy.budget - e.job.beginAttempt.attempts.toNat) + 5 <
      6 * (run.policy.budget - e.job.attempts.toNat) + 0 := by
    rw [Job.attempts_of_current? (Job.current?_beginAttempt hs), Job.attempts_of_current? hs,
      hready.toNat_attempts]
    omega
  rcases hbrings with ⟨fault, -, rfl⟩ | ⟨-, rfl⟩
  · refine nears_attemptFailed f.config fault hdistance hlength rfl ?_
    exact Nat.lt_of_le_of_lt (Nat.add_le_add_left (by decide) _) hless
  · refine nears_of_lt ?_ trivial
    rw [hdistance, Stage.distance.running, ← hlength]
    exact Distance.of_lt_of_turns hless

/-- A success leaves one step less. -/
theorem Advances.nears_succeeding (h : e.Advances steps f.config)
    (hstage : e.stage = .succeeding run)
    (hbrings : (Work.record e.job.completeStep false
      (afterSuccess f.config run e.job)).Brings f id e e') : e.Nears e' := by
  have hexpects := h.expects
  rw [hstage] at hexpects
  obtain ⟨s, hs, -, -⟩ := hexpects
  have hdistance : e.stage.distance e.job = Stage.distance.running e.job run 3 := by
    rw [hstage]
    rfl
  have hlt : e.job.currentStep < e.job.steps.length := (List.getElem?_eq_some_iff.1 hs).1
  have hlength : e.job.completeStep.steps.length = e.job.steps.length := Job.length_modifyCurrent ..
  rcases hbrings with ⟨fault, -, rfl⟩ | ⟨-, rfl⟩
  · exact nears_attemptFailed f.config fault hdistance rfl rfl (Nat.lt_succ_self _)
  · refine nears_of_lt ?_ trivial
    rw [hdistance, Stage.distance.running, ← hlength]
    apply Distance.of_lt_of_steps
    change 2 * (e.job.completeStep.steps.length - (e.job.currentStep + 1)) + 1 < _
    omega

/-- A pause before the next attempt. -/
theorem nears_backOff (e : JobEntry) (f : Fleet) (snapshot : Job)
    (hstage : e.stage = .pausing run) :
    e.Nears (({ e with snapshot, job := f.stamped e.job }).backOff f.now run) := by
  have hdistance : e.stage.distance e.job = Stage.distance.running e.job run 2 := by
    rw [hstage]
    rfl
  have hless (turns : Nat) (hturns : turns < 2) :
      Stage.distance.running (f.stamped e.job) run turns < e.stage.distance e.job := by
    rw [hdistance]
    exact Distance.of_lt_of_turns (Nat.add_lt_add_left hturns _)
  obtain ⟨-, hc⟩ | ⟨-, hc⟩ :=
    ({ e with snapshot, job := f.stamped e.job }).backOff_cases f.now run
  · rw [hc]
    exact nears_of_lt (hless 0 (by decide)) trivial
  · rw [hc]
    exact nears_of_lt (hless 1 (by decide)) trivial

/-- Who stands in line gets a permit, or has to wait. -/
private theorem nears_queued (hstage : e.stage = .queued)
    (hbrings : (e.work f id).Brings f id e e') : (e.Blocked f id ∧ e' = e) ∨ e.Nears e' := by
  rw [work, hstage] at hbrings
  rw [Blocked, hstage]
  dsimp only at hbrings ⊢
  split at hbrings
  · obtain rfl := hbrings
    refine Or.inr (nears_of_lt ?_ f.config.defaultRetry.budget_pos)
    rw [hstage]
    exact Distance.of_lt_of_part (by decide)
  · next hfull =>
    obtain rfl := hbrings
    exact Or.inl ⟨Bool.of_not_eq_true hfull, rfl⟩

/-- Each try to record a move of the job leaves one try less. -/
private theorem nears_moving {event : JobEvent} {policy : RetryPolicy} {tries : UInt32}
    (hstage : e.stage = .moving event policy tries) (hcounted : e.stage.Counted)
    (hbrings : (e.work f id).Brings f id e e') : e.Nears e' := by
  rw [work, hstage] at hbrings
  rw [hstage] at hcounted
  dsimp only at hbrings
  split at hbrings
  · obtain rfl := hbrings
    exact e.nears_moveRefused f.now hstage hcounted _
  · rcases hbrings with ⟨fault, -, rfl⟩ | ⟨-, rfl⟩
    · exact e.nears_moveRefused f.now hstage hcounted fault
    · exact e.nears_moved f.config hstage

/-- A rest between two such tries ends, or has still to be waited for. -/
private theorem nears_resting {event : JobEvent} {policy : RetryPolicy} {tries : UInt32}
    {wakeAt : Nat} (hstage : e.stage = .resting event policy tries wakeAt)
    (hcounted : e.stage.Counted) (hbrings : (e.work f id).Brings f id e e') :
    (e.Blocked f id ∧ e' = e) ∨ e.Nears e' := by
  rw [work, hstage] at hbrings
  rw [hstage] at hcounted
  rw [Blocked, hstage]
  dsimp only at hbrings ⊢
  split at hbrings
  · obtain rfl := hbrings
    refine Or.inr (nears_of_lt ?_ hcounted)
    rw [hstage]
    exact Distance.of_lt_of_turns (Nat.lt_succ_self _)
  · next hearly =>
    obtain rfl := hbrings
    exact Or.inl ⟨Nat.lt_of_not_le hearly, rfl⟩

/-- Who heeds a stop in the middle of an attempt is about to end its job. -/
private theorem nears_beginStop {turns : Nat}
    (hdistance : e.stage.distance e.job = Stage.distance.running e.job run turns) :
    e.Nears (e.beginStop f.config) :=
  (e.concludes_beginStop f.config).nears hdistance

/-- A program that runs for the first time in its attempt. -/
private theorem nears_acting {program : Program Stepping (Except Fault Unit)}
    (hstage : e.stage = .acting run program) (hbrings : (e.work f id).Brings f id e e') :
    e.Nears e' := by
  have hdistance : e.stage.distance e.job = Stage.distance.running e.job run 5 := by
    rw [hstage]
    rfl
  rw [work, hstage] at hbrings
  dsimp only at hbrings
  split at hbrings
  · obtain rfl := hbrings
    exact nears_beginStop hdistance
  · obtain ⟨e₁, ha, rfl⟩ := hbrings
    refine nears_afterRun ha f.config hdistance (by decide) _ ?_
    rintro s - ⟨⟩

/-- A program that waits goes on, or what it waits for has not come. -/
private theorem nears_waiting {suspension : Suspension (Except Fault Unit)}
    (hstage : e.stage = .waiting run suspension) (hbrings : (e.work f id).Brings f id e e') :
    (e.Blocked f id ∧ e' = e) ∨ e.Nears e' := by
  have hdistance : e.stage.distance e.job = Stage.distance.running e.job run 4 := by
    rw [hstage]
    rfl
  rw [work, hstage] at hbrings
  rw [Blocked, hstage]
  dsimp only at hbrings ⊢
  split at hbrings
  · obtain rfl := hbrings
    exact Or.inr (nears_beginStop hdistance)
  · next hstop =>
    split at hbrings
    · next program hresume =>
      obtain ⟨e₁, ha, rfl⟩ := hbrings
      refine Or.inr (nears_afterRun ha f.config hdistance (Nat.le_refl 4) _ fun s hs _ => ?_)
      rw [hstage]
      exact .waiting _ _ ⟨program, Fleet.resumes_of_resume? hresume, Fleet.mayWait_run _ _ _ hs⟩
    · next hresume =>
      obtain rfl := hbrings
      exact Or.inl ⟨⟨Bool.of_not_eq_true hstop, hresume⟩, rfl⟩

/-- A pause between two attempts ends, or has still to be waited for. -/
private theorem nears_backingOff {wakeAt : Nat} (hstage : e.stage = .backingOff run wakeAt)
    (hbrings : (e.work f id).Brings f id e e') : (e.Blocked f id ∧ e' = e) ∨ e.Nears e' := by
  have hdistance : e.stage.distance e.job = Stage.distance.running e.job run 1 := by
    rw [hstage]
    rfl
  rw [work, hstage] at hbrings
  rw [Blocked, hstage]
  dsimp only at hbrings ⊢
  split at hbrings
  · obtain rfl := hbrings
    exact Or.inr (nears_beginStop hdistance)
  · next hstop =>
    split at hbrings
    · obtain rfl := hbrings
      refine Or.inr (nears_of_lt ?_ trivial)
      rw [hdistance]
      exact Distance.of_lt_of_turns (Nat.lt_succ_self _)
    · next hearly =>
      obtain rfl := hbrings
      exact Or.inl ⟨⟨Bool.of_not_eq_true hstop, Nat.lt_of_not_le hearly⟩, rfl⟩

/-- A turn takes a worker nearer to its end, unless it has to wait. -/
theorem Advances.nears_of_brings (h : e.Advances steps f.config) (hcounted : e.stage.Counted)
    (hbrings : (e.work f id).Brings f id e e') : (e.Blocked f id ∧ e' = e) ∨ e.Nears e' := by
  cases hstage : e.stage with
  | queued => exact nears_queued hstage hbrings
  | moving => exact Or.inr (nears_moving hstage hcounted hbrings)
  | resting => exact nears_resting hstage hcounted hbrings
  | acting => exact Or.inr (nears_acting hstage hbrings)
  | waiting => exact nears_waiting hstage hbrings
  | backingOff => exact nears_backingOff hstage hbrings
  | choosing =>
    rw [work, hstage] at hbrings
    obtain rfl := hbrings
    exact Or.inr (nears_choose f.config f.registry hstage)
  | starting run =>
    rw [work, hstage] at hbrings
    exact Or.inr (h.nears_starting hstage hbrings)
  | succeeding run =>
    rw [work, hstage] at hbrings
    exact Or.inr (h.nears_succeeding hstage hbrings)
  | pausing run =>
    rw [work, hstage] at hbrings
    right
    rcases hbrings with ⟨fault, -, rfl⟩ | ⟨-, rfl⟩
    · exact e.nears_backOff f e.snapshot hstage
    · exact e.nears_backOff f (f.stamped e.job) hstage
  | leaving result =>
    rw [work, hstage] at hbrings
    obtain rfl := hbrings
    refine Or.inr (nears_of_lt ?_ trivial)
    rw [hstage]
    exact Distance.of_lt_of_part (by decide)
  | gone =>
    rw [work, hstage] at hbrings
    obtain rfl := hbrings
    refine Or.inl ⟨?_, rfl⟩
    rw [Blocked, hstage]
    trivial

/-- What a worker preserves whose turns take it nearer to its end. -/
theorem nearing_law (steps : List JobStep) (H : Fleet → JobEntry → Prop) :
    GuidedLaw H fun config _ e => (e.Standing ∧ e.Advances steps config) ∧ e.stage.Counted := by
  refine ((advances_law steps).guided H).refine ?_ ?_
  · rintro _ _ e e' - hcounted (rfl | ⟨-, rfl⟩) <;> exact hcounted
  · intro f id e e' _ _ h hcounted hbrings
    rcases h.2.nears_of_brings hcounted hbrings with ⟨-, rfl⟩ | hnears
    · exact hcounted
    · exact hnears.counted

end JobEntry

namespace Fleet

variable {id : JobId} {e : JobEntry} {s₀ : Store} {H : Fleet → JobEntry → Prop}
  {steps : List JobStep} {σ : Nat → Fleet}

/-- The worker of a job has left. -/
def HasLeft (id : JobId) (f : Fleet) : Prop :=
  ∃ e, f.jobs.get? id = some e ∧ e.stage = .gone

/-- The worker of a job takes a turn in which it does not have to wait. -/
structure GoesOn (id : JobId) (f g : Fleet) : Prop where
  turn : g = (f.workerTurn id).fleet
  free : ∀ e, f.jobs.get? id = some e → ¬e.Blocked f id

/-- A worker that again and again gets a turn in which it does not have to wait leaves in the
end. -/
theorem halts (hf : Published s₀ (σ 0)) (he : (σ 0).jobs.get? id = some e) (hstanding : e.Standing)
    (hadvances : e.Advances steps (σ 0).config) (hcounted : e.stage.Counted)
    (hsteps : ∀ n, Guided H id (σ n) (σ (n + 1)))
    (hfair : ∀ n, ∃ m ≥ n, HasLeft id (σ m) ∨ GoesOn id (σ m) (σ (m + 1))) :
    ∃ n, HasLeft id (σ n) := by
  have hrun (n : Nat) : GuidedRun H id (σ 0) (σ n) := by
    induction n with
    | zero => exact .refl
    | succ n ih => exact ih.tail (hsteps n)
  -- every entry on the way goes through its steps in order and counts its tries
  have hkept (n : Nat) {e' : JobEntry} (he' : (σ n).jobs.get? id = some e') :
      (σ n).Fit ∧ e'.Advances steps (σ n).config ∧ e'.stage.Counted := by
    obtain ⟨hn, hconfig, -, e₁, he₁, ⟨-, hadvances₁⟩, hcounted₁⟩ :=
      (hrun n).keeps (JobEntry.nearing_law steps H) hf he ⟨⟨hstanding, hadvances⟩, hcounted⟩
    cases he'.symm.trans he₁
    exact ⟨hn.fit, hconfig ▸ hadvances₁, hcounted₁⟩
  have hleaves (e : JobEntry) (n : Nat) (he : (σ n).jobs.get? id = some e) :
      ∃ m, HasLeft id (σ m) := by
    induction e using JobEntry.wf_nearer.induction generalizing n with
    | _ e ih =>
      -- until the worker gets nearer to its end, neither its job nor its stage changes
      have hstill (k : Nat) : (∃ m, HasLeft id (σ m)) ∨
          ∃ e', (σ (n + k)).jobs.get? id = some e' ∧ e'.job = e.job ∧ e'.stage = e.stage := by
        induction k with
        | zero => exact Or.inr ⟨e, he, rfl, rfl⟩
        | succ k ihk =>
          rcases ihk with hleft | ⟨e', he', hjob, hstage⟩
          · exact Or.inl hleft
          · obtain ⟨hfit, hadvances', hcounted'⟩ := hkept (n + k) he'
            obtain ⟨e₂, he₂, hentry⟩ := (hsteps (n + k)).entry hfit he'
            rcases hentry with ⟨-, hbrings⟩ | ha
            · rcases hadvances'.nears_of_brings hcounted' hbrings with ⟨-, rfl⟩ | hnears
              · exact Or.inr ⟨e₂, he₂, hjob, hstage⟩
              · have hnearer := hnears.nearer
                rw [JobEntry.Nearer, hjob, hstage] at hnearer
                exact Or.inl (ih e₂ hnearer _ he₂)
            · rcases ha with rfl | ⟨-, rfl⟩
              · exact Or.inr ⟨e₂, he₂, hjob, hstage⟩
              · exact Or.inr ⟨_, he₂, hjob, hstage⟩
      obtain ⟨m, hm, hnext⟩ := hfair n
      rcases hstill (m - n) with hleft | ⟨e', he', hjob, hstage⟩
      · exact hleft
      · rw [Nat.add_sub_cancel' hm] at he'
        rcases hnext with hleft | hgoes
        · exact ⟨m, hleft⟩
        · obtain ⟨hfit, hadvances', hcounted'⟩ := hkept m he'
          obtain ⟨e₂, he₂, hbrings⟩ := (workerTurn_works he' (hfit.ids id e' he')).brings he'
          rcases hadvances'.nears_of_brings hcounted' hbrings with ⟨hblocked, -⟩ | hnears
          · exact (hgoes.free e' he' hblocked).elim
          · have hnearer := hnears.nearer
            rw [JobEntry.Nearer, hjob, hstage] at hnearer
            rw [← hgoes.turn] at he₂
            exact ih e₂ hnearer _ he₂
  exact hleaves e 0 he

end Fleet

end Flotilla
