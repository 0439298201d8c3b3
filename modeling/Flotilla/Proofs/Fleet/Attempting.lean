import Flotilla.Proofs.Fleet.StepEffects
import Flotilla.Proofs.Worker.Order

/-!
# How an attempt comes to run

No decision of a worker makes it run anything. It comes to the program of an attempt when the start
of the attempt is on record, it holds what is left of the program as long as it has to wait, and it
comes to a success when the program has ended with one (`JobEntry.trying_of_brings`).
-/

namespace Flotilla

namespace Stage

/-- What stays the same for all attempts of the step that a worker has in hand. -/
def run? : Stage → Option StepRun
  | .starting run | .acting run _ | .waiting run _ | .succeeding run | .pausing run
  | .backingOff run _ => some run
  | .queued | .moving .. | .resting .. | .choosing | .leaving _ | .gone => none

/-- Stages between the record of the start of an attempt and the record of its success. -/
def Trying : Stage → Prop
  | .acting .. | .waiting .. | .succeeding _ => True
  | .queued | .moving .. | .resting .. | .choosing | .starting _ | .pausing _ | .backingOff ..
  | .leaving _ | .gone => False

/-- The start of an attempt is what comes next, at once or after a sleep. -/
def Before (run : StepRun) (stage : Stage) : Prop :=
  stage = .starting run ∨ ∃ wakeAt, stage = .backingOff run wakeAt

private theorem Before.run? {run : StepRun} {stage : Stage} (h : stage.Before run) :
    stage.run? = some run := by
  rcases h with rfl | ⟨wakeAt, rfl⟩ <;> rfl

private theorem not_trying_of_run? {stage : Stage} (h : stage.run? = none) : ¬stage.Trying := by
  cases stage with
  | acting | waiting | succeeding => cases h
  | _ => exact id

end Stage

namespace JobEntry

variable {e e' : JobEntry} {f : Fleet} {id : JobId} {config : Config}

private theorem run?_conclude (e : JobEntry) (config : Config) (event : JobEvent)
    (failure : Option Fault) : (e.conclude config event failure).stage.run? = none := by
  rcases e.conclude_cases config event failure with ⟨-, h⟩ | ⟨-, h⟩ <;> rw [h] <;> rfl

private theorem run?_moved (e : JobEntry) (config : Config) (event : JobEvent) :
    (e.moved config event).stage.run? = none := by
  cases event <;> rfl

private theorem run?_moveRefused (e : JobEntry) (now : Nat) (event : JobEvent) (policy :
    RetryPolicy) (tries : UInt32) (fault : Fault) :
    (e.moveRefused now event policy tries fault).stage.run? = none := by
  rcases e.moveRefused_cases now event policy tries fault with
    ⟨-, -, h⟩ | ⟨-, ⟨-, h⟩ | ⟨-, h⟩⟩ <;> rw [h] <;> rfl

private theorem run?_backOff (e : JobEntry) (now : Nat) (run : StepRun) :
    (e.backOff now run).stage.run? = some run := by
  rcases e.backOff_cases now run with ⟨-, h⟩ | ⟨-, h⟩ <;> rw [h] <;> rfl

private theorem not_trying_backOff (e : JobEntry) (now : Nat) (run : StepRun) :
    ¬(e.backOff now run).stage.Trying := by
  rcases e.backOff_cases now run with ⟨-, h⟩ | ⟨-, h⟩ <;> rw [h] <;> exact id

/-- Backing off leaves the job as it is. -/
theorem job_backOff (e : JobEntry) (now : Nat) (run : StepRun) :
    (e.backOff now run).job = e.job := by
  rcases e.backOff_cases now run with ⟨-, h⟩ | ⟨-, h⟩ <;> rw [h] <;> rfl

/-- A worker that looks for the next step takes at most the start of an attempt in hand. -/
theorem run_of_choose {registry : Registry} {run : StepRun}
    (h : (e.choose config registry).stage.run? = some run) :
    ∃ s d, e.stop ≠ true ∧ e.job.current? = some s ∧ registry.lookup s.definition = .ok d ∧
      run = ⟨d, config.policyFor s, d.declared s.properties⟩ ∧
      e.choose config registry = e.goTo (.starting run) := by
  rcases e.choose_cases config registry with
    ⟨-, hc⟩ | ⟨-, -, hc⟩ | ⟨-, s, fault, -, -, hc⟩ | ⟨hstop, s, d, hs, hd, hc⟩ <;> rw [hc] at h ⊢
  · cases h
  · cases (run?_conclude _ _ _ _).symm.trans h
  · cases (run?_conclude _ _ _ _).symm.trans h
  · cases h
    exact ⟨s, d, hstop, hs, hd, rfl, rfl⟩

/-- A worker whose attempt failed keeps the step in hand only to record that it is to be tried
again. -/
theorem run_of_attemptFailed {run run' : StepRun} {fault : Fault}
    (h : (e.attemptFailed config run fault).stage.run? = some run') :
    run' = run ∧ run.policy.allowsAnother e.job.attempts = true ∧
      e.attemptFailed config run fault =
        ({ e with job := e.job.noting fault .pending }).goTo (.pausing run) := by
  rcases e.attemptFailed_cases config run fault with
    ⟨-, hc⟩ | ⟨-, -, hc⟩ | ⟨-, -, -, hallows, hc⟩ <;> rw [hc] at h ⊢
  · cases h
  · cases (run?_conclude _ _ _ _).symm.trans h
  · cases h
    exact ⟨rfl, hallows, rfl⟩

private theorem not_trying_choose (e : JobEntry) (config : Config) (registry : Registry) :
    ¬(e.choose config registry).stage.Trying := by
  cases hrun : (e.choose config registry).stage.run? with
  | none => exact Stage.not_trying_of_run? hrun
  | some run =>
    obtain ⟨s, d, -, -, -, -, hc⟩ := run_of_choose hrun
    rw [hc]
    exact id

/-- A worker whose attempt has failed is no longer trying. -/
theorem not_trying_attemptFailed (e : JobEntry) (config : Config) (run : StepRun) (fault : Fault) :
    ¬(e.attemptFailed config run fault).stage.Trying := by
  cases hrun : (e.attemptFailed config run fault).stage.run? with
  | none => exact Stage.not_trying_of_run? hrun
  | some run' =>
    obtain ⟨-, -, hc⟩ := run_of_attemptFailed hrun
    rw [hc]
    exact id

/-- After its program has run, a worker is at the attempt only if the program has to wait or has
succeeded. -/
theorem afterRun_of_trying {run : StepRun}
    {result : Suspension (Except Fault Unit) ⊕ Except Fault Unit}
    (h : (e.afterRun config run result).stage.Trying) :
    (∃ s, result = .inl s ∧ e.afterRun config run result = e.goTo (.waiting run s)) ∨
      e.afterRun config run result = e.goTo (.succeeding run) := by
  rcases result with suspension | fault | ⟨⟩
  · exact Or.inl ⟨suspension, rfl, rfl⟩
  · exact (not_trying_attemptFailed _ _ _ _ h).elim
  · exact Or.inr rfl

/-- After its program has run, a worker waits for what the program waits for. -/
theorem result_of_waiting {run run' : StepRun} {s : Suspension (Except Fault Unit)}
    {result : Suspension (Except Fault Unit) ⊕ Except Fault Unit}
    (h : (e.afterRun config run result).stage = .waiting run' s) :
    run' = run ∧ result = .inl s := by
  rcases afterRun_of_trying (by rw [h]; trivial) with ⟨s', hresult, hnext⟩ | hnext
  · rw [hnext] at h
    cases h
    exact ⟨rfl, hresult⟩
  · rw [hnext] at h
    cases h

/-- A worker runs programs of attempts only. -/
theorem trying_of_perform {run : StepRun} {program : Program Stepping (Except Fault Unit)}
    (h : e.work f id = .perform run program) : e.stage.Trying ∧ e.stage.run? = some run := by
  rcases (perform_cases h).2 with hstage | ⟨suspension, hstage, -⟩ <;> rw [hstage] <;>
  exact ⟨trivial, rfl⟩

/-- The entry at the beginning of an attempt whose start is on record. -/
def atWork (e : JobEntry) (config : Config) (run : StepRun) (job : Job) : JobEntry :=
  let e := { e with snapshot := job, job }
  e.goTo (.acting run (run.definition.behaviour (e.context config run)))

/-- What a worker that is at an attempt after its turn did in it. -/
inductive Tried (f : Fleet) (id : JobId) (e : JobEntry) : JobEntry → Prop
  /-- It still has to wait. -/
  | waited {run : StepRun} {suspension : Suspension (Except Fault Unit)}
    (hstage : e.stage = .waiting run suspension) : Tried f id e e
  /-- The start of the attempt was recorded. -/
  | begun {run : StepRun} (hstage : e.stage = .starting run)
    (hanswer : (f.persist e.job.beginAttempt).1 = .ok ()) :
    Tried f id e (e.atWork f.config run (f.stamped e.job.beginAttempt))
  /-- Its program ran. -/
  | performed {run : StepRun} {program : Program Stepping (Except Fault Unit)} {e₁ : JobEntry}
    (hwork : e.work f id = .perform run program) (ha : e.MayBeAsked e₁) :
    Tried f id e (e₁.afterRun f.config run (f.run id e.job.target program).1)

/-- Of all records, only that of the start of an attempt brings a worker to an attempt. -/
theorem tried_of_record {job : Job} {cancels : Bool}
    {next : Except Fault Unit → Job → JobEntry → JobEntry}
    (hwork : e.work f id = .record job cancels next)
    (h : (Work.record job cancels next).Brings f id e e') (ht : e'.stage.Trying) :
    Tried f id e e' := by
  rcases record_cases hwork with ⟨event, policy, tries, state, -, -, rfl, -, rfl⟩ |
    ⟨run, hstage, rfl, -, rfl⟩ | ⟨run, -, rfl, -, rfl⟩ | ⟨run, -, rfl, -, rfl⟩
  · rcases h with ⟨fault, -, rfl⟩ | ⟨-, rfl⟩
    · exact (Stage.not_trying_of_run? (run?_moveRefused _ _ _ _ _ _) ht).elim
    · exact (Stage.not_trying_of_run? (run?_moved _ _ _) ht).elim
  · rcases h with ⟨fault, -, rfl⟩ | ⟨hanswer, rfl⟩
    · exact (not_trying_attemptFailed _ _ _ _ ht).elim
    · exact .begun hstage hanswer
  · rcases h with ⟨fault, -, rfl⟩ | ⟨-, rfl⟩
    · exact (not_trying_attemptFailed _ _ _ _ ht).elim
    · exact ht.elim
  · rcases h with ⟨fault, -, rfl⟩ | ⟨-, rfl⟩ <;> exact (not_trying_backOff _ _ _ ht).elim

/-- A worker is at an attempt after its turn because it waited for it before, because its start has
just been recorded, or because its program has just run. -/
theorem trying_of_brings (h : (e.work f id).Brings f id e e') (ht : e'.stage.Trying) :
    Tried f id e e' := by
  cases hwork : e.work f id with
  | record job cancels next =>
    rw [hwork] at h
    exact tried_of_record hwork h ht
  | perform run program =>
    rw [hwork] at h
    obtain ⟨e₁, ha, rfl⟩ := h
    exact .performed hwork ha
  | change e₁ =>
    rw [hwork] at h
    obtain rfl := h
    cases changes_of_work hwork with
    | stays hidle hwaits =>
      cases hstage : e.stage with
      | waiting run suspension => exact .waited hstage
      | acting run program => exact (hwaits run program hstage).elim
      | succeeding run => exact (hidle run hstage).elim
      | _ =>
        rw [hstage] at ht
        exact ht.elim
    | misplaced => exact (Stage.not_trying_of_run? (run?_moveRefused _ _ _ _ _ _) ht).elim
    | chose => exact (not_trying_choose _ _ _ ht).elim
    | admitted | rested | stopped | resumed | left => exact ht.elim

/-- A worker comes to the program of an attempt by recording the start of the attempt. -/
theorem acting_of_brings {run : StepRun} {program : Program Stepping (Except Fault Unit)}
    (h : (e.work f id).Brings f id e e') (hstage : e'.stage = .acting run program) :
    e.stage = .starting run ∧ e' = e.atWork f.config run (f.stamped e.job.beginAttempt) := by
  cases trying_of_brings h (by rw [hstage]; trivial) with
  | waited hwaiting => cases hwaiting.symm.trans hstage
  | begun hstart _ =>
    cases hstage
    exact ⟨hstart, rfl⟩
  | performed =>
    rcases afterRun_of_trying (by rw [hstage]; trivial) with ⟨s, -, hnext⟩ | hnext <;>
    · rw [hnext] at hstage
      cases hstage

/-- A worker waits after its turn because it has waited before, or because its program has to. -/
theorem waiting_of_brings {run : StepRun} {s : Suspension (Except Fault Unit)}
    (h : (e.work f id).Brings f id e e') (hstage : e'.stage = .waiting run s) :
    e' = e ∨ ∃ program e₁, e.work f id = .perform run program ∧ e.MayBeAsked e₁ ∧
      (f.run id e.job.target program).1 = .inl s ∧ e' = e₁.goTo (.waiting run s) := by
  cases trying_of_brings h (by rw [hstage]; trivial) with
  | waited => exact Or.inl rfl
  | begun => cases hstage
  | performed hwork ha =>
    obtain ⟨rfl, hresult⟩ := result_of_waiting hstage
    exact Or.inr ⟨_, _, hwork, ha, hresult, by rw [hresult]; rfl⟩

/-- How a worker comes to have a step in hand: it had it before its turn, and did no more to the job
than to change what has become of that step, or it has just taken it up. -/
inductive Takes (f : Fleet) (e : JobEntry) (run : StepRun) (e' : JobEntry) : Prop
  | kept (hrun : e.stage.run? = some run)
    (hcurrent : e'.job.current?.map JobStep.plan = e.job.current?.map JobStep.plan)
  | chosen {s : JobStep} {d : StepDefinition} (hstage : e.stage = .choosing)
    (hcurrent : e.job.current? = some s) (hlookup : f.registry.lookup s.definition = .ok d)
    (hrun : run = ⟨d, f.config.policyFor s, d.declared s.properties⟩)
    (hnext : e' = e.goTo (.starting run))

private theorem Takes.of_job_eq {run : StepRun} (hrun : e.stage.run? = some run) (hjob :
    e'.job = e.job) :
    Takes f e run e' :=
  .kept hrun (by rw [hjob])

/-- A failed attempt keeps the step in hand that was in hand. -/
theorem takes_attemptFailed {e₁ : JobEntry} {run run' : StepRun} {fault : Fault}
    (hrun : e.stage.run? = some run)
    (hcurrent : e₁.job.current?.map JobStep.plan = e.job.current?.map JobStep.plan)
    (h : (e₁.attemptFailed config run fault).stage.run? = some run') :
    Takes f e run' (e₁.attemptFailed config run fault) := by
  obtain ⟨rfl, -, hc⟩ := run_of_attemptFailed h
  refine .kept hrun ?_
  rw [hc, ← hcurrent]
  exact Job.plan_current?_modifyCurrent _ fun _ => rfl

/-- A worker with a step in hand had it before its turn, or has just taken it up. -/
theorem takes_of_brings {run : StepRun} (h : (e.work f id).Brings f id e e')
    (hrun : e'.stage.run? = some run) : Takes f e run e' := by
  cases hwork : e.work f id with
  | change e₁ =>
    rw [hwork] at h
    obtain rfl := h
    cases changes_of_work hwork with
    | stays => exact .of_job_eq hrun rfl
    | misplaced => cases (run?_moveRefused _ _ _ _ _ _).symm.trans hrun
    | chose hstage =>
      obtain ⟨s, d, -, hs, hd, heq, hc⟩ := run_of_choose hrun
      exact .chosen hstage hs hd heq hc
    | resumed hstage =>
      refine .of_job_eq ?_ rfl
      rw [hstage]
      exact hrun
    | admitted | rested | stopped | left => cases hrun
  | record job cancels next =>
    rw [hwork] at h
    rcases record_cases hwork with ⟨event, policy, tries, state, -, -, rfl, -, rfl⟩ |
      ⟨run₁, hstage, rfl, -, rfl⟩ | ⟨run₁, hstage, rfl, -, rfl⟩ | ⟨run₁, hstage, rfl, -, rfl⟩
    · rcases h with ⟨fault, -, rfl⟩ | ⟨-, rfl⟩
      · cases (run?_moveRefused _ _ _ _ _ _).symm.trans hrun
      · cases (run?_moved _ _ _).symm.trans hrun
    · have hbefore : e.stage.run? = some run₁ := by rw [hstage]; rfl
      have hbegun : (f.stamped e.job.beginAttempt).current?.map JobStep.plan =
          e.job.current?.map JobStep.plan :=
        Job.plan_current?_modifyCurrent _ fun _ => rfl
      rcases h with ⟨fault, -, rfl⟩ | ⟨-, rfl⟩
      · exact takes_attemptFailed hbefore hbegun hrun
      · cases hrun
        exact .kept hbefore hbegun
    · rcases h with ⟨fault, -, rfl⟩ | ⟨-, rfl⟩
      · exact takes_attemptFailed (by rw [hstage]; rfl) rfl hrun
      · cases hrun
    · have hrun₁ : run = run₁ := by
        rcases h with ⟨fault, -, rfl⟩ | ⟨-, rfl⟩ <;>
        exact Option.some.inj (hrun.symm.trans (run?_backOff _ _ _))
      have hjob : e'.job = f.stamped e.job := by
        rcases h with ⟨fault, -, rfl⟩ | ⟨-, rfl⟩ <;> exact job_backOff _ _ _
      exact .kept (by rw [hstage, hrun₁]; rfl) (by rw [hjob]; rfl)
  | perform run₁ program =>
    rw [hwork] at h
    obtain ⟨e₁, ha, rfl⟩ := h
    have hjob : e₁.job = e.job := ha.same.job
    have hbefore : e.stage.run? = some run₁ := (trying_of_perform hwork).2
    generalize (f.run id e.job.target program).1 = result at hrun ⊢
    rcases result with suspension | fault | ⟨⟩
    · cases hrun
      exact .of_job_eq hbefore hjob
    · exact takes_attemptFailed hbefore (by rw [hjob]) hrun
    · cases hrun
      exact .of_job_eq hbefore hjob

/-- What becomes of the steps of a job in a turn of its worker: at most of the one whose turn it is,
or a success makes it the turn of the next one. -/
inductive Proceeds (e e' : JobEntry) : Prop
  | kept (h : e.job.Resembles e'.job)
  | completed {run : StepRun} (hstage : e.stage = .succeeding run)
    (h : e.job.completeStep.Resembles e'.job)

/-- A turn of its worker leaves a job at its step, or completes it. -/
theorem proceeds_of_brings (h : (e.work f id).Brings f id e e') : e.Proceeds e' := by
  cases leaves_of_brings h with
  | unrecorded e₁ ha hpreserved => exact .kept (ha.same.job ▸ hpreserved.steps)
  | @recorded job cancels next hwork _ _ _ hpreserved =>
    have hstamped : job.Resembles (f.stamped job) := .of_eq rfl rfl rfl
    have hjob : job.Resembles e'.job := hstamped.trans hpreserved.steps
    rcases record_cases hwork with ⟨_, _, _, state, -, -, rfl, -⟩ | ⟨run, -, rfl, -⟩ |
      ⟨run, hstage, rfl, -⟩ | ⟨run, -, rfl, -⟩
    · have hmoved : e.job.Resembles { e.job with state } := .of_eq rfl rfl rfl
      exact .kept (hmoved.trans hjob)
    · exact .kept ((e.job.resembles_modifyCurrent _).trans hjob)
    · exact .completed hstage hjob
    · exact .kept hjob

/-- The job is as it was last recorded, and the step whose turn it is is being tried. -/
structure Begun (e : JobEntry) : Prop where
  recorded : e.snapshot = e.job
  running : ∃ s, e.job.current? = some s ∧ s.status = .running

/-- A worker that has a step in hand has it from its job, and during an attempt at it the attempt is
on record. -/
structure OnRecord (e : JobEntry) : Prop where
  inHand : ∀ run, e.stage.run? = some run → e.job.current?.isSome
  begun : e.stage.Trying → e.Begun

/-- A new job has no step in hand. -/
theorem onRecord_new (job : Job) : (JobEntry.new job).OnRecord := ⟨nofun, nofun⟩

/-- Marks do not change what is on record. -/
theorem OnRecord.same (h : e.OnRecord) (hsame : e.Same e') : e'.OnRecord where
  inHand := by
    rw [hsame.stage, hsame.job]
    exact h.inHand
  begun := by
    rw [hsame.stage]
    intro ht
    have hbegun := h.begun ht
    exact ⟨by rw [hsame.snapshot, hsame.job, hbegun.recorded], hsame.job ▸ hbegun.running⟩

private theorem OnRecord.brings (h : e.OnRecord) (hbrings : (e.work f id).Brings f id e e') :
    e'.OnRecord where
  inHand run hrun := by
    cases takes_of_brings hbrings hrun with
    | kept hbefore hcurrent =>
      have hsome := congrArg Option.isSome hcurrent
      rw [Option.isSome_map, Option.isSome_map] at hsome
      rw [hsome]
      exact h.inHand run hbefore
    | chosen _ hcurrent _ _ hnext =>
      rw [hnext]
      exact Option.isSome_iff_exists.2 ⟨_, hcurrent⟩
  begun ht := by
    cases trying_of_brings hbrings ht with
    | waited => exact h.begun ht
    | begun hstage _ =>
      obtain ⟨s, hs⟩ := Option.isSome_iff_exists.1 (h.inHand _ (by rw [hstage]; rfl))
      exact ⟨rfl, _, Job.current?_beginAttempt hs, rfl⟩
    | @performed run program e₁ hwork ha =>
      have hbegun : e.Begun := h.begun (trying_of_perform hwork).1
      have hjob : (e₁.afterRun f.config run (f.run id e.job.target program).1).job = e.job := by
        rcases afterRun_of_trying ht with ⟨s, -, hnext⟩ | hnext <;> rw [hnext] <;> exact ha.same.job
      refine ⟨?_, ?_⟩
      · rw [(e₁.preserved_afterRun f.config run _).snapshot, ha.same.snapshot, hjob,
          hbegun.recorded]
      · rw [hjob]
        exact hbegun.running

/-- During an attempt the attempt is on record, whatever happens. -/
theorem rule_onRecord : Rule fun _ _ e => e.OnRecord :=
  .of_same (fun _ _ _ _ h hsame => h.same hsame) fun _ _ _ _ h hbrings => h.brings hbrings

end JobEntry

end Flotilla
