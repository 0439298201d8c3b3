import Flotilla.Proofs.Fleet.Attempting
import Flotilla.Proofs.Fleet.Sending
import Flotilla.Proofs.Rollout

/-!
# Commands follow records

A command is sent only when the attempt that it is sent for is on record, with all steps before it
done; an attempt at a step of a rollout sends at most one; and the keys of commands are never used
twice (`Fleet.commands_follow_records`). A worker that has a program to run has recorded the start
of the attempt, and once it has sent something it comes to no other stage of the same attempt at
which it could send again (`JobEntry.Past`).
-/

namespace Flotilla

/-- If another attempt may follow, counting it does not run over. -/
theorem RetryPolicy.toNat_succ_of_allowsAnother {policy : RetryPolicy} {tries : UInt32}
    (h : policy.allowsAnother tries = true) : (tries + 1).toNat = tries.toNat + 1 := by
  rw [allowsAnother, decide_eq_true_eq, UInt32.lt_iff_toNat_lt] at h
  have hbound := policy.maxAttempts.toNat_lt
  rw [UInt32.toNat_add]
  simp
  omega

/-- All steps before the one whose turn it is are done. -/
def Job.DoneBefore (job : Job) : Prop :=
  ∀ n s, job.steps[n]? = some s → n < job.currentStep → s.status = .completed

private theorem Job.doneBefore_new (id : JobId) (target : String) (steps : List JobStep) (nowMs :
    UInt64) :
    (Job.new id target steps nowMs).DoneBefore := by
  intro n s _ hn
  cases hn

private theorem Job.DoneBefore.resembles {job job' : Job} (h : job.DoneBefore)
    (hresembles : job.Resembles job') : job'.DoneBefore := by
  intro n s hs hn
  rw [hresembles.currentStep] at hn
  rw [hresembles.others n (Nat.ne_of_lt hn)] at hs
  exact h n s hs hn

/-- Completing a step leaves it among those that are done. -/
theorem Job.DoneBefore.completeStep {job : Job} (h : job.DoneBefore) :
    job.completeStep.DoneBefore := by
  intro n s hs hn
  rw [Job.completeStep, Job.getElem?_modifyCurrent] at hs
  rcases Nat.lt_succ_iff_lt_or_eq.1 hn with hbefore | rfl
  · rw [if_neg (Nat.ne_of_gt hbefore)] at hs
    exact h n s hs hbefore
  · rw [if_pos rfl] at hs
    obtain ⟨t, -, rfl⟩ := Option.map_eq_some_iff.1 hs
    rfl

/-- Stages from which no worker comes to send anything for attempt `k` of the step in hand, of which
`attempts` have been counted. -/
def Stage.Past (k attempts : UInt32) : Stage → Prop
  | .starting run | .pausing run | .backingOff run _ =>
    k ≤ attempts ∧ run.policy.allowsAnother attempts = true
  | .acting .. => k < attempts
  | .waiting _ s => k ≤ attempts ∧ (k = attempts → s.SendsAtMost 0)
  | .succeeding _ => k ≤ attempts
  | .moving event .. | .resting event .. => event ≠ .start
  | .queued | .choosing => False
  | .leaving _ | .gone => True

namespace JobEntry

variable {e e' : JobEntry} {f : Fleet} {id : JobId} {k : UInt32} {i : Nat} {config : Config}
  {run : StepRun}

/-- A worker that has only steps in hand whose attempts send at most one command each. -/
structure SendsOnce (e : JobEntry) : Prop where
  definition : ∀ run, e.stage.run? = some run → run.definition.SendsOnce
  acting : ∀ run program, e.stage = .acting run program → program.SendsAtMost 1
  waiting : ∀ run s, e.stage = .waiting run s → s.SendsAtMost 1

private theorem sendsOnce_new (job : Job) : (JobEntry.new job).SendsOnce := ⟨nofun, nofun, nofun⟩

private theorem SendsOnce.same (h : e.SendsOnce) (hsame : e.Same e') : e'.SendsOnce where
  definition := by
    rw [hsame.stage]
    exact h.definition
  acting := by
    rw [hsame.stage]
    exact h.acting
  waiting := by
    rw [hsame.stage]
    exact h.waiting

/-- The program that a worker runs sends at most one command. -/
theorem SendsOnce.perform (h : e.SendsOnce) {run : StepRun}
    {program : Program Stepping (Except Fault Unit)} (hwork : e.work f id = .perform run program) :
    program.SendsAtMost 1 := by
  rcases (perform_cases hwork).2 with hstage | ⟨s, hstage, hresume⟩
  · exact h.acting run program hstage
  · exact h.waiting run s hstage program (Fleet.resumes_of_resume? hresume)

private theorem SendsOnce.brings (h : e.SendsOnce) (hregistry :
    f.registry.All StepDefinition.SendsOnce)
    (hbrings : (e.work f id).Brings f id e e') : e'.SendsOnce where
  definition run hrun := by
    cases takes_of_brings hbrings hrun with
    | kept hbefore _ => exact h.definition run hbefore
    | chosen _ _ hlookup hrun _ =>
      rw [hrun]
      exact hregistry _ _ hlookup
  acting run program hstage := by
    obtain ⟨hstart, rfl⟩ := acting_of_brings hbrings hstage
    cases hstage
    exact h.definition _ (by rw [hstart]; rfl) _
  waiting run s hstage := by
    rcases waiting_of_brings hbrings hstage with rfl | ⟨program, e₁, hwork, -, hresult, -⟩
    · exact h.waiting run s hstage
    · obtain ⟨sent, -, -, hrest⟩ := Fleet.sends_run id e.job.target (h.perform hwork) f
      exact fun program hresumes => (hrest s hresult program hresumes).mono (Nat.sub_le _ _)

/-- If the definitions send once at most, so does every program that a worker holds. -/
theorem rule_sendsOnce :
    Rule fun _ registry e => registry.All StepDefinition.SendsOnce → e.SendsOnce :=
  .of_same (fun _ _ _ _ h hsame hregistry => (h hregistry).same hsame)
    fun _ _ _ _ h hbrings hregistry => (h hregistry).brings hregistry hbrings

/-- The steps before the one whose turn it is are done, whatever happens. -/
theorem rule_doneBefore : Rule fun _ _ e => e.job.DoneBefore := by
  refine .of_same (fun _ _ _ _ h hsame => hsame.job ▸ h) fun f id e e' h hbrings => ?_
  cases proceeds_of_brings hbrings with
  | kept hsteps => exact h.resembles hsteps
  | completed _ hsteps => exact h.completeStep.resembles hsteps

/-- A worker that sends nothing any more for attempt `k` of step number `i`. -/
def Past (i : Nat) (k : UInt32) (e : JobEntry) : Prop :=
  i < e.job.currentStep ∨ (i = e.job.currentStep ∧ e.stage.Past k e.job.attempts)

private theorem past_conclude (e : JobEntry) (config : Config) {event : JobEvent} (hevent :
    event ≠ .start) (failure : Option Fault) (k : UInt32) :
    (e.conclude config event failure).Past e.job.currentStep k := by
  rcases e.conclude_cases config event failure with ⟨-, hc⟩ | ⟨-, hc⟩ <;> rw [hc]
  · exact Or.inr ⟨rfl, nofun⟩
  · cases failure <;> exact Or.inr ⟨rfl, hevent⟩

/-- An attempt that has failed is left behind. -/
theorem past_attemptFailed (hk : k ≤ e.job.attempts) (fault : Fault) :
    (e.attemptFailed config run fault).Past e.job.currentStep k := by
  rcases e.attemptFailed_cases config run fault with
    ⟨-, hc⟩ | ⟨-, -, hc⟩ | ⟨-, -, -, hallows, hc⟩ <;> rw [hc]
  · exact Or.inr ⟨rfl, nofun⟩
  · have hending : fault.ending ≠ .start := by
      rcases fault.ending_eq with h | h <;> rw [h] <;> exact nofun
    exact past_conclude { e with job := e.job.noting fault .failed } config hending _ k
  · refine Or.inr ⟨rfl, ?_⟩
    have hattempts := e.job.attempts_noting fault .pending
    refine ⟨?_, ?_⟩
    · exact hattempts ▸ hk
    · exact hattempts ▸ hallows

private theorem past_moveRefused (e : JobEntry) (now : Nat) {event : JobEvent} (hevent :
    event ≠ .start) (policy : RetryPolicy) (tries : UInt32) (fault : Fault) (k : UInt32) :
    (e.moveRefused now event policy tries fault).Past e.job.currentStep k := by
  rcases e.moveRefused_cases now event policy tries fault with
    ⟨-, -, hc⟩ | ⟨-, ⟨-, hc⟩ | ⟨-, hc⟩⟩ <;> rw [hc]
  · exact Or.inr ⟨rfl, hevent⟩
  · exact Or.inr ⟨rfl, nofun⟩
  · exact Or.inr ⟨rfl, trivial⟩

private theorem past_moved (e : JobEntry) (config : Config) {event : JobEvent} (hevent :
    event ≠ .start) (k : UInt32) : (e.moved config event).Past e.job.currentStep k := by
  cases event with
  | start => exact (hevent rfl).elim
  | stopRequested => exact Or.inr ⟨rfl, nofun⟩
  | allStepsCompleted | stepExhausted | fatalError | stopSettled => exact Or.inr ⟨rfl, trivial⟩

private theorem past_afterRun {result : Suspension (Except Fault Unit) ⊕ Except Fault Unit}
    (hk : k ≤ e.job.attempts)
    (hrest : ∀ s, result = .inl s → k = e.job.attempts → s.SendsAtMost 0) :
    (e.afterRun config run result).Past e.job.currentStep k := by
  rcases result with s | fault | ⟨⟩
  · exact Or.inr ⟨rfl, hk, hrest s rfl⟩
  · exact past_attemptFailed hk fault
  · exact Or.inr ⟨rfl, hk⟩

/-- What a worker runs that is past an attempt sends nothing if it is for that attempt. -/
theorem past_perform {program : Program Stepping (Except Fault Unit)}
    (h : e.stage.Past k e.job.attempts) (hwork : e.work f id = .perform run program) :
    k ≤ e.job.attempts ∧ (k = e.job.attempts → program.SendsAtMost 0) := by
  rcases (perform_cases hwork).2 with hstage | ⟨s, hstage, hresume⟩ <;> rw [hstage] at h
  · exact ⟨UInt32.le_of_lt h, fun heq => (UInt32.ne_of_lt h heq).elim⟩
  · exact ⟨h.1, fun heq => h.2 heq program (Fleet.resumes_of_resume? hresume)⟩

/-- A turn sends nothing for an attempt that was left behind. -/
theorem Past.brings (h : e.Past i k) (hrecord : e.OnRecord)
    (hbrings : (e.work f id).Brings f id e e') : e'.Past i k := by
  rcases h with hlt | ⟨rfl, hpast⟩
  · left
    cases proceeds_of_brings hbrings with
    | kept hsteps =>
      rw [hsteps.currentStep]
      exact hlt
    | completed _ hsteps =>
      rw [hsteps.currentStep]
      exact Nat.lt_succ_of_lt hlt
  · cases hwork : e.work f id with
    | change e₁ =>
      rw [hwork] at hbrings
      obtain rfl := hbrings
      cases changes_of_work hwork with
      | stays => exact Or.inr ⟨rfl, hpast⟩
      | misplaced hstage =>
        rw [hstage] at hpast
        exact past_moveRefused e _ hpast _ _ _ k
      | rested hstage | resumed hstage =>
        rw [hstage] at hpast
        exact Or.inr ⟨rfl, hpast⟩
      | stopped => exact Or.inr ⟨rfl, nofun⟩
      | left => exact Or.inr ⟨rfl, trivial⟩
      | admitted hstage | chose hstage =>
        rw [hstage] at hpast
        exact hpast.elim
    | record job cancels next =>
      rw [hwork] at hbrings
      rcases record_cases hwork with ⟨event, policy, tries, state, hstage, -, rfl, -, rfl⟩ |
        ⟨run, hstage, rfl, -, rfl⟩ | ⟨run, hstage, rfl, -, rfl⟩ | ⟨run, hstage, rfl, -, rfl⟩ <;>
        rw [hstage] at hpast
      · let job : Job := f.stamped { e.job with state }
        rcases hbrings with ⟨fault, -, rfl⟩ | ⟨-, rfl⟩
        · exact past_moveRefused { e with job := { job with state := e.job.state } } _ hpast _ _ _ k
        · exact past_moved { e with snapshot := job, job } _ hpast k
      · obtain ⟨s, hs⟩ := Option.isSome_iff_exists.1 (hrecord.inHand run (by rw [hstage]; rfl))
        have hcount : (f.stamped e.job.beginAttempt).attempts = e.job.attempts + 1 := by
          have hbegun : (f.stamped e.job.beginAttempt).current? = e.job.beginAttempt.current? := rfl
          rw [Job.attempts_of_current? (hbegun.trans (Job.current?_beginAttempt hs)),
            Job.attempts_of_current? hs]
        have hk : k < (f.stamped e.job.beginAttempt).attempts := by
          have hle := UInt32.le_iff_toNat_le.1 hpast.1
          rw [hcount, UInt32.lt_iff_toNat_lt, RetryPolicy.toNat_succ_of_allowsAnother hpast.2]
          omega
        rcases hbrings with ⟨fault, -, rfl⟩ | ⟨-, rfl⟩
        · exact past_attemptFailed (e := { e with job := f.stamped e.job.beginAttempt })
            (UInt32.le_of_lt hk) fault
        · exact Or.inr ⟨rfl, hk⟩
      · rcases hbrings with ⟨fault, -, rfl⟩ | ⟨-, rfl⟩
        · exact past_attemptFailed (e := { e with job := { e.job with
            updatedAtMs := (f.stamped e.job.completeStep).updatedAtMs } }) hpast fault
        · exact Or.inl (Nat.lt_succ_self _)
      · have hagain (e₁ : JobEntry) (hjob : e₁.job = f.stamped e.job) :
            (e₁.backOff f.now run).Past e.job.currentStep k := by
          rcases e₁.backOff_cases f.now run with ⟨-, hc⟩ | ⟨-, hc⟩ <;> rw [hc] <;>
          exact Or.inr ⟨by rw [goTo, hjob]; rfl, by rw [goTo, hjob]; exact hpast⟩
        rcases hbrings with ⟨fault, -, rfl⟩ | ⟨-, rfl⟩ <;> exact hagain _ rfl
    | perform run program =>
      rw [hwork] at hbrings
      obtain ⟨e₁, ha, rfl⟩ := hbrings
      obtain ⟨hk, hmute⟩ := past_perform hpast hwork
      have hjob := ha.same.job
      rw [← hjob]
      refine past_afterRun (hjob ▸ hk) fun s hresult heq => ?_
      obtain ⟨sent, -, hlength, hrest⟩ := Fleet.sends_run id e.job.target (hmute (hjob ▸ heq)) f
      rw [hjob] at hresult
      exact fun program hresumes => (hrest s hresult program hresumes).mono (Nat.sub_le _ _)

private theorem Past.same (h : e.Past i k) (hsame : e.Same e') : e'.Past i k := by
  rw [Past, hsame.stage, hsame.job]
  exact h

/-- Once an attempt has been left behind, nothing is sent for it any more. -/
theorem rule_past (i : Nat) (k : UInt32) : Rule fun _ _ e => e.OnRecord ∧ e.Past i k :=
  rule_onRecord.refine (fun _ _ _ _ h hsame => h.same hsame)
    fun _ _ _ _ _ hrecord h hbrings => h.brings hrecord hbrings

end JobEntry

namespace Fleet

variable {f g : Fleet} {id : JobId} {e : JobEntry} {i : Nat} {k : UInt32}

/-- On whose behalf a command is sent. -/
inductive Author where
  /-- Somebody outside of all jobs. -/
  | outsider
  /-- An attempt at a step of a job. -/
  | attempt (job : JobId) (step : Nat) (number : UInt32)

/-- The steps of a run in which commands are sent. -/
inductive Speaks (f : Fleet) : Author → Fleet → Prop
  | worker {id : JobId} {e : JobEntry} (he : f.jobs.get? id = some e) :
    Speaks f (.attempt id e.job.currentStep e.job.attempts) (f.workerTurn id).fleet
  | caller (number : Nat) : Speaks f .outsider (f.callerTurn number).fleet
  | call (number : Nat) (request : Request) (timeout : Nat) (h : request.owner = none) :
    Speaks f .outsider (f.call number request timeout).2

/-- A step in which somebody speaks is a step. -/
theorem Speaks.fine {author : Author} (h : Speaks f author g) : Fine f g := by
  cases h with
  | worker => exact .step (.turn (.worker _))
  | caller number => exact .step (.turn (.caller number))
  | call number request timeout h => exact .step (.call number request timeout h)

/-- A turn of a task gives out no key unless the task speaks. -/
theorem keyless_or_speaks_turn (f : Fleet) (task : Task) :
    Keyless f (f.turn task).fleet ∨ ∃ author, Speaks f author (f.turn task).fleet := by
  cases task with
  | delivery => exact .inl f.keyless_deliveryTurn
  | supervisor => exact .inl f.keyless_supervisorTurn
  | watcher => exact .inl f.keyless_watcherTurn
  | reader =>
    refine .inl ?_
    rw [turn, readerTurn_eq]
    rfl
  | responder index => exact .inl (f.keyless_responderTurn index)
  | caller number => exact .inr ⟨.outsider, .caller number⟩
  | worker id =>
    cases he : f.jobs.get? id with
    | none =>
      refine .inl ?_
      rw [turn, workerTurn_of_none he]
      rfl
    | some e => exact .inr ⟨_, .worker he⟩

/-- There are no other steps in which the key of a command is given out. -/
theorem keyless_or_speaks (h : Fine f g) : Keyless f g ∨ ∃ author, Speaks f author g := by
  cases h with
  | claim | raise => exact .inl rfl
  | step hstep =>
    cases hstep with
    | turn task => exact f.keyless_or_speaks_turn task
    | call number request timeout howner => exact .inr ⟨_, .call number request timeout howner⟩
    | submit target steps =>
      rcases f.submit_cases target steps with ⟨_, _, h, -⟩ | ⟨_, _, _, _, -, -, h, -⟩ <;>
        exact .inl (h ▸ rfl)
    | stop job =>
      rcases f.stop_cases job with ⟨_, _, h, -⟩ | ⟨_, -, -, h⟩ | ⟨_, _, -, -, h⟩ <;>
        exact .inl (h ▸ rfl)
    | publish m => exact .inl (f.keyless_publish m)
    | cancel key => exact .inl (f.keyless_setCorrelator (f.correlator.settles_cancel key).sent)
    | cancelOwnedBy job =>
      exact .inl (f.keyless_setCorrelator (f.correlator.settles_cancelOwnedBy job).sent)
    | closeRequests => exact .inl (f.keyless_setCorrelator f.correlator.settles_close.sent)
    | hangUp number =>
      refine .inl ?_
      unfold hangUp
      split <;> rfl
    | letGo => exact .inl (keyless_releaseCorrelator { f with held := false })
    | reschedule | pass | disturb | read | scan | write | connect | equip | callLater =>
      exact .inl rfl

/-- A step in which an attempt speaks is the turn of a worker that is at the attempt. -/
theorem Speaks.entry (h : Speaks f (.attempt id i k) g) :
    ∃ e, f.jobs.get? id = some e ∧ e.job.currentStep = i ∧ e.job.attempts = k ∧
      g = (f.workerTurn id).fleet := by
  cases h with
  | worker he => exact ⟨_, he, rfl, rfl, rfl⟩

/-- The store holds a record of the job by which attempt `k` at step number `i` is under way and all
steps before are done. -/
def OnFile (id : JobId) (i : Nat) (k : UInt32) (f : Fleet) : Prop :=
  ∃ record job, f.transactions.store.store.read (Job.key id) = some record ∧
    Records record.value job ∧ job.currentStep = i ∧
    (∃ s, job.steps[i]? = some s ∧ s.status = .running ∧ s.attempts = k) ∧
    ∀ n s, job.steps[n]? = some s → n < i → s.status = .completed

/-- The record of an attempt that has begun is in the store. -/
theorem Published.onFile {s₀ : Store} (hf : Published s₀ f) (he : f.jobs.get? id = some e)
    (hbegun : e.Begun) (hdone : e.job.DoneBefore) :
    OnFile id e.job.currentStep e.job.attempts f := by
  have hlast := (hf.snapshot id e he).2
  have hread := (hf.told id).read
  rw [hlast, Option.map_some, Option.some_or, hbegun.recorded] at hread
  obtain ⟨s, hs, hstatus⟩ := hbegun.running
  exact ⟨_, e.job, hread, records_toBytes e.job, rfl,
    ⟨s, hs, hstatus, (Job.attempts_of_current? hs).symm⟩, hdone⟩

/-- A worker that is past the attempt that it is at sends nothing. -/
theorem sends_workerTurn_of_past (he : f.jobs.get? id = some e) (hid : e.job.id = id)
    (hpast : e.Past e.job.currentStep e.job.attempts) : Sends f (f.workerTurn id).fleet [] := by
  have hstage : e.stage.Past e.job.attempts e.job.attempts := by
    rcases hpast with hlt | ⟨-, hstage⟩
    · exact (Nat.lt_irrefl _ hlt).elim
    · exact hstage
  cases hwork : e.work f id with
  | change | record => exact (workerTurn_works he hid).sends_of_idle (by rw [hwork]; trivial)
  | perform run program =>
    obtain ⟨-, hmute⟩ := JobEntry.past_perform hstage hwork
    obtain ⟨sent, hsends, hlength, -⟩ := sends_perform he hid hwork (hmute rfl)
    obtain rfl := List.length_eq_zero_iff.1 (Nat.le_zero.1 hlength)
    exact hsends

/-- A worker sends at most one command, in an attempt, and is past the attempt then. -/
theorem sends_workerTurn (he : f.jobs.get? id = some e) (hid : e.job.id = id) (h : e.SendsOnce) :
    ∃ sent, Sends f (f.workerTurn id).fleet sent ∧ sent.length ≤ 1 ∧
      (sent ≠ [] → e.stage.Trying ∧ ∃ e', (f.workerTurn id).fleet.jobs.get? id = some e' ∧
        e'.Past e.job.currentStep e.job.attempts) := by
  have hworks := workerTurn_works he hid
  cases hwork : e.work f id with
  | change | record =>
    exact ⟨[], hworks.sends_of_idle (by rw [hwork]; trivial), Nat.zero_le _,
      fun hne => (hne rfl).elim⟩
  | perform run program =>
    obtain ⟨sent, hsends, hlength, hrest⟩ := sends_perform he hid hwork (h.perform hwork)
    refine ⟨sent, hsends, hlength, fun hne => ⟨(JobEntry.trying_of_perform hwork).1, ?_⟩⟩
    have hone : sent.length = 1 :=
      Nat.le_antisymm hlength (Nat.succ_le_of_lt (List.length_pos_iff.2 hne))
    obtain ⟨e', he', hbrings⟩ := hworks.brings he
    rw [hwork] at hbrings
    obtain ⟨e₁, ha, rfl⟩ := hbrings
    refine ⟨_, he', ?_⟩
    rw [hone] at hrest
    rw [← ha.same.job]
    refine JobEntry.past_afterRun (UInt32.le_refl _) fun s hresult _ => hrest s ?_
    rwa [ha.same.job] at hresult

/-- What is known of the commands that are sent in a step on behalf of `author`. -/
structure Accounted (author : Author) (f g : Fleet) (sent : List Message) : Prop where
  sends : Sends f g sent
  once : sent.length ≤ 1
  /-- The attempt that sends is on record before. -/
  onFile : ∀ id i k, author = .attempt id i k → sent ≠ [] → OnFile id i k f
  /-- It never sends again. -/
  last : ∀ id i k, author = .attempt id i k → sent ≠ [] → ∀ f' g', FineRun g f' →
    Speaks f' author g' → f'.submitted < 2 ^ 64 → Sends f' g' []
  /-- Nobody ever sends with the same key again. -/
  fresh : ∀ f' author' g' later, FineRun g f' → Speaks f' author' g' → Sends f' g' later →
    g'.correlator.sent < 2 ^ 64 → ∀ m ∈ sent, ∀ m' ∈ later, m'.correlationId ≠ m.correlationId

/-- Nothing is sent any more for an attempt that the worker is past. -/
theorem Rooted.sends_of_past {f' g' : Fleet} (hf : f.Rooted) (he : f.jobs.get? id = some e)
    (hrecord : e.OnRecord) (hpast : e.Past i k) (hrun : FineRun f f')
    (hspeaks : Speaks f' (.attempt id i k) g') (hlt : f'.submitted < 2 ^ 64) : Sends f' g' [] := by
  have hsustains := hrun.loose.sustains (JobEntry.rule_past i k) hf he ⟨hrecord, hpast⟩ hlt
  have hf' := (hrun.loose.steady hf).rooted
  obtain ⟨e', he', -, hpast'⟩ := hsustains.entry
  obtain ⟨e₁, he₁, hstep, hattempts, rfl⟩ := hspeaks.entry
  cases he₁.symm.trans he'
  rw [← hstep, ← hattempts] at hpast'
  exact sends_workerTurn_of_past he' (hf'.ids id e' he') hpast'

/-- The commands of each step in which some are sent are accounted for. -/
theorem accounted_of_speaks {config : Config} {store : UnreliableStore} {registry : Registry}
    (hregistry : Rollout.register .empty = .ok registry)
    (hrun : FineRun (opened config store registry) f) {author : Author}
    (hspeaks : Speaks f author g) : ∃ sent, Accounted author f g sent := by
  have hroot := rooted_opened config store registry
  have hf := (LooseRun.steady hrun.loose hroot).rooted
  have hg := ((Loose.fine hspeaks.fine).leads hf).rooted hf
  have hfresh {sent : List Message} (hsends : Sends f g sent) : ∀ f' author' g' later,
      FineRun g f' → Speaks f' author' g' → Sends f' g' later → g'.correlator.sent < 2 ^ 64 →
      ∀ m ∈ sent, ∀ m' ∈ later, m'.correlationId ≠ m.correlationId := by
    intro f' author' g' later hthen _ hlater hlt
    exact hsends.key_ne hlater (hthen.loose.steady hg).sent hlt
  cases hspeaks with
  | caller number =>
    obtain ⟨sent, hsends, hlength⟩ := f.sends_callerTurn number
    exact ⟨sent, hsends, hlength, nofun, nofun, hfresh hsends⟩
  | call number request timeout howner =>
    obtain ⟨sent, hsends, hlength⟩ := f.sends_call number request timeout
    exact ⟨sent, hsends, hlength, nofun, nofun, hfresh hsends⟩
  | @worker id e he =>
    have hid := hf.ids id e he
    have hsendsOnce :=
      hrun.loose.obeys JobEntry.rule_sendsOnce (fun _ _ _ _ _ => JobEntry.sendsOnce_new _) he
      (Rollout.sendsOnce_register (Registry.all_empty _) hregistry)
    obtain ⟨sent, hsends, hlength, hpast⟩ := sends_workerTurn he hid hsendsOnce
    refine ⟨sent, hsends, hlength, ?_, ?_, hfresh hsends⟩
    · rintro _ _ _ ⟨⟩ hne
      have hrecord : e.OnRecord :=
        hrun.loose.obeys JobEntry.rule_onRecord (fun _ _ _ _ => JobEntry.onRecord_new _) he
      have hdone : e.job.DoneBefore :=
        hrun.loose.obeys JobEntry.rule_doneBefore (fun _ _ _ _ => Job.doneBefore_new _ _ _ _) he
      have hspares := Rollout.spares_register Registry.spares_empty hregistry
      have hattended :=
        (hrun.upholds JobEntry.fineLaw_standing (attended_opened config store hspares) id).1
      exact hattended.published.onFile he (hrecord.begun (hpast hne).1) hdone
    · rintro _ _ _ ⟨⟩ hne f' g' hthen hspeaks' hlt
      obtain ⟨e', he', hpast'⟩ := (hpast hne).2
      have hrun' : LooseRun (opened config store registry) (f.workerTurn id).fleet :=
        hrun.loose.tail (.step (.turn (.worker id)))
      have hrecord' : e'.OnRecord :=
        hrun'.obeys JobEntry.rule_onRecord (fun _ _ _ _ => JobEntry.onRecord_new _) he'
      exact hg.sends_of_past he' hrecord' hpast' hthen hspeaks' hlt

/-- In every run of a rollout, whatever the store refuses and whenever stops come, a command is sent
only by an attempt that is on record with all earlier steps done, each attempt sends at most one,
and no key of a command is used twice, as long as numbers of jobs and keys last. No key is given out
in any other way. -/
theorem commands_follow_records {config : Config} {store : UnreliableStore} {registry : Registry}
    (hregistry : Rollout.register .empty = .ok registry)
    (hrun : FineRun (opened config store registry) f) (hstep : Fine f g) :
    (∀ author, Speaks f author g → ∃ sent, Accounted author f g sent) ∧
    (g.correlator.sent ≠ f.correlator.sent → ∃ author, Speaks f author g) :=
  ⟨fun _ hspeaks => accounted_of_speaks hregistry hrun hspeaks,
    fun hgiven => (keyless_or_speaks hstep).resolve_left hgiven⟩

/-- The definitions of a rollout. -/
def rolloutRegistry : Registry := (Rollout.register .empty).toOption.getD .empty

/-- The registry of a rollout is the one with its three steps. -/
theorem eq_rolloutRegistry {registry : Registry} (h : Rollout.register .empty = .ok registry) :
    registry = rolloutRegistry := by
  rw [rolloutRegistry, h]
  rfl

/-- A fleet for rollouts whose store refuses the third commit, at its start. -/
def openedRollout : Fleet :=
  let outage : Outage := ⟨.commit, some 3, none, none, none, .commitFailure "disk full"⟩
  opened (Config.standard.withStepRetry Rollout.deployBundle (.new 2 .none)) (.new [outage])
    rolloutRegistry

/-- That fleet when the start of the second attempt to push a bundle has been recorded. -/
def rolloutFleet : Fleet :=
  (openedRollout.submit "edge-1" [((JobStep.new Rollout.deployBundle).withProperty "bundle"
    "firmware.bin").withProperty "version" "2.0"]).2.turns (List.replicate 6 (.worker 1))

/-- The start of the first attempt was refused, and nothing was sent for it. The second one sends
its command, and that is the only one. -/
theorem commands_follow_records_rolloutFleet :
    rolloutFleet.chronicle.publications = [] ∧
    ∃ m, Accounted (.attempt 1 0 2) rolloutFleet (rolloutFleet.workerTurn 1).fleet [m] ∧
      m.topic = "fleet/edge-1/cmd/deploy" ∧ m.correlationId = 1 ∧ OnFile 1 0 2 rolloutFleet := by
  have hregistry : Rollout.register .empty = .ok rolloutRegistry := rfl
  have hrun : FineRun openedRollout rolloutFleet :=
    .head (.step (.submit "edge-1" _)) (fineRun_turns _ _)
  have hspeaks : Speaks rolloutFleet (.attempt 1 0 2) (rolloutFleet.workerTurn 1).fleet :=
    @Speaks.worker rolloutFleet 1 _ rfl
  have hbefore : rolloutFleet.chronicle.publications = [] := rfl
  have hafter : ∃ m, (rolloutFleet.workerTurn 1).fleet.chronicle.publications =
      [(rolloutFleet.now, m)] ∧ m.topic = "fleet/edge-1/cmd/deploy" ∧ m.correlationId = 1 :=
    ⟨_, rfl, by decide +kernel, rfl⟩
  obtain ⟨sent, haccounted⟩ :=
    (commands_follow_records hregistry hrun hspeaks.fine).1 _ hspeaks
  obtain ⟨m, hm, htopic, hkey⟩ := hafter
  have hall := haccounted.sends.publications
  rw [hm, hbefore, List.nil_append] at hall
  obtain ⟨m', rfl, hsame⟩ := List.map_eq_singleton_iff.1 hall.symm
  cases hsame
  exact ⟨hbefore, m, haccounted, htopic, hkey, haccounted.onFile 1 0 2 rfl nofun⟩

end Fleet

end Flotilla
