import Flotilla.Proofs.Fleet.Outcome
import Flotilla.Proofs.Rollout.Exchange

/-!
# How far a rollout is

The job of a rollout pushes a bundle and then checks the version. What the device runs and what is
on record as its version follow from how many of the two have succeeded (`Fleet.Progress`). Its
worker keeps this in every turn (`Fleet.Progress.workerTurn`), and hears of its attempts what the
version that arrives at the device decides (`Fleet.Progress.hears`).
-/

namespace Flotilla

namespace Rollout

/-- The steps of a rollout. -/
def steps (bundle version : String) (retry : Errand → Option RetryPolicy) : List JobStep :=
  [Errand.push, .check].map fun errand =>
    { errand.step bundle version with retry := retry errand }

/-- The steps of a rollout have not been touched. -/
theorem untouched_steps (bundle version : String) (retry : Errand → Option RetryPolicy) :
    ∀ s ∈ steps bundle version retry, s.Untouched := by
  intro s hs
  obtain ⟨errand, -, rfl⟩ := List.mem_map.1 hs
  cases errand <;> exact ⟨rfl, rfl, rfl⟩

/-- Each errand is at its place among the steps. -/
theorem getElem?_steps (bundle version : String) (retry : Errand → Option RetryPolicy)
    (errand : Errand) : (steps bundle version retry)[errand.index]? =
      some { errand.step bundle version with retry := retry errand } := by
  cases errand <;> rfl

/-- What a step of a rollout is about is decided by its place. -/
theorem plan_of_steps {bundle version : String} {retry : Errand → Option RetryPolicy} {job : Job}
    (hplan : job.steps.map JobStep.plan = (steps bundle version retry).map JobStep.plan)
    {s : JobStep} (hs : job.current? = some s) :
    ∃ errand : Errand, job.currentStep = errand.index ∧
      s.definition = (errand.step bundle version).definition ∧
      s.properties = (errand.step bundle version).properties := by
  have hsame : some s.plan = ((steps bundle version retry).map JobStep.plan)[job.currentStep]? := by
    rw [← hplan, List.getElem?_map]
    exact (congrArg (Option.map JobStep.plan) hs).symm
  have hlt : job.currentStep < 2 := by
    by_contra hover
    cases hsame.trans (List.getElem?_eq_none (Nat.le_of_not_lt hover))
  have hplace : ∃ errand : Errand, job.currentStep = errand.index := by
    interval_cases job.currentStep
    · exact ⟨.push, rfl⟩
    · exact ⟨.check, rfl⟩
  obtain ⟨errand, hindex⟩ := hplace
  rw [hindex, List.getElem?_map, getElem?_steps] at hsame
  have hdefinition := congrArg JobStep.definition (Option.some.inj hsame)
  have hproperties := congrArg JobStep.properties (Option.some.inj hsame)
  exact ⟨errand, hindex, hdefinition, hproperties⟩

end Rollout

namespace Errand

open Rollout

/-- The errands have different places. -/
theorem index_injective {errand errand' : Errand} (h : errand.index = errand'.index) :
    errand = errand' := by
  cases errand <;> cases errand' <;> first | rfl | cases h

/-- What becomes of every attempt. -/
def verdict (target bundle version : String) : Errand → Verdict
  | push => .succeeded
  | check =>
    if arriving bundle version = version then .succeeded
    else .failed (misreport target (arriving bundle version) version)

/-- What becomes of the attempts at the steps of a rollout. -/
def trials (target bundle version : String) (index : Nat) : Trial := fun _ =>
  if index = 0 then push.verdict target bundle version else check.verdict target bundle version

/-- The attempts at a step of a rollout all come to the same. -/
theorem trials_index (target bundle version : String) (errand : Errand) (k : Nat) :
    trials target bundle version errand.index k = errand.verdict target bundle version := by
  cases errand with
  | push => rw [trials, index, if_pos rfl]
  | check => rw [trials, index, if_neg Nat.one_ne_zero]

private theorem start_verdict (target bundle version : String) (errand : Errand) :
    (errand.verdict target bundle version).start = .ok () ∧
      (errand.verdict target bundle version).ending = .ok () := by
  cases errand with
  | push => exact ⟨rfl, rfl⟩
  | check =>
    rw [verdict]
    split <;> exact ⟨rfl, rfl⟩

/-- An attempt fails if it checks a version that is not the one that arrived, and only then. -/
theorem outcome_verdict (target bundle version : String) (errand : Errand) :
    (errand = .check ∧ arriving bundle version ≠ version ∧
      (errand.verdict target bundle version).outcome =
        .error (misreport target (arriving bundle version) version)) ∨
    ((errand = .check → arriving bundle version = version) ∧
      (errand.verdict target bundle version).outcome = .ok ()) := by
  cases errand with
  | push => exact Or.inr ⟨nofun, rfl⟩
  | check =>
    rw [verdict]
    split
    · next hsame => exact Or.inr ⟨fun _ => hsame, rfl⟩
    · next hother => exact Or.inl ⟨rfl, hother, rfl⟩

end Errand

/-- How many steps have succeeded, whether or not the success is on record. -/
def JobEntry.achieved (e : JobEntry) : Nat :=
  match e.stage with
  | .succeeding _ => e.job.currentStep + 1
  | _ => e.job.currentStep

namespace JobEntry

variable {e e' : JobEntry} {f : Fleet} {id : JobId}

private theorem achieved_of_succeeding {run : StepRun} (h : e.stage = .succeeding run) :
    e.achieved = e.job.currentStep + 1 := by
  rw [achieved, h]

private theorem achieved_of_not_succeeding (h : ∀ run, e.stage ≠ .succeeding run) :
    e.achieved = e.job.currentStep := by
  unfold achieved
  split
  · next run hstage => exact (h run hstage).elim
  · rfl

/-- What has been recorded as done has been achieved. -/
theorem currentStep_le_achieved (e : JobEntry) : e.job.currentStep ≤ e.achieved := by
  unfold achieved
  split
  · exact Nat.le_succ _
  · exact Nat.le_refl _

private theorem stop_of_idle (hidle : (e.work f id).Idle) (hbrings :
    (e.work f id).Brings f id e e') :
    e'.stop = e.stop := by
  have hpreserves := e.preserves_work f id
  revert hidle hpreserves hbrings
  cases e.work f id with
  | change e₁ =>
    rintro - rfl ht
    exact ht.stop
  | record job cancels next =>
    rintro - (⟨fault, -, rfl⟩ | ⟨-, rfl⟩) ht
    · exact (ht.2.1 fault).stop
    · exact ht.2.2.stop
  | perform run program => exact fun hidle => hidle.elim

/-- A worker that runs no program, and whose records are taken, achieves nothing: a success that is
put on record has been counted before. -/
theorem achieved_of_idle (hpersist : ∀ job, (f.persist job).1 = .ok ())
    (hidle : (e.work f id).Idle) (hbrings : (e.work f id).Brings f id e e') :
    e'.achieved = e.achieved ∧
      (e'.stage.run? = none ∨ e'.job.currentStep = e.job.currentStep) := by
  by_cases hsucceeding : ∃ run, e.stage = .succeeding run
  · obtain ⟨run, hstage⟩ := hsucceeding
    rw [work, hstage] at hbrings
    rcases hbrings with ⟨fault, hrefused, -⟩ | ⟨-, rfl⟩
    · cases hrefused.symm.trans (hpersist _)
    · refine ⟨?_, Or.inl rfl⟩
      rw [achieved_of_succeeding hstage]
      rfl
  · rw [not_exists] at hsucceeding
    have hstep : e'.job.currentStep = e.job.currentStep := by
      cases proceeds_of_brings hbrings with
      | kept h => exact h.currentStep
      | completed hstage => exact (hsucceeding _ hstage).elim
    refine ⟨?_, Or.inr hstep⟩
    rw [achieved_of_not_succeeding hsucceeding, ← hstep]
    refine achieved_of_not_succeeding fun run hstage => ?_
    cases trying_of_brings hbrings (by rw [hstage]; trivial) with
    | waited => exact hsucceeding run hstage
    | begun => cases hstage
    | performed hwork =>
      rw [hwork] at hidle
      exact hidle

/-- No record says more than has been achieved. -/
theorem currentStep_le_of_brings (hbrings : (e.work f id).Brings f id e e')
    (h : e.snapshot.currentStep ≤ e.achieved) : e'.snapshot.currentStep ≤ e.achieved := by
  cases leaves_of_brings hbrings with
  | unrecorded e₁ ha hpreserved => rwa [hpreserved.snapshot, ha.same.snapshot]
  | @recorded job cancels next hwork _ _ _ hpreserved =>
    have hle := e.currentStep_le_achieved
    rw [hpreserved.snapshot]
    change job.currentStep ≤ _
    rcases record_cases hwork with ⟨_, _, _, _, -, -, rfl, -⟩ | ⟨_, -, rfl, -⟩ |
      ⟨run, hstage, rfl, -⟩ | ⟨_, -, rfl, -⟩
    · exact hle
    · exact hle
    · exact Nat.le_of_eq (achieved_of_succeeding hstage).symm
    · exact hle

end JobEntry

namespace Fleet

open Rollout Errand

/-- What is on record as the version of the device. -/
def versionOf (f : Fleet) (d : Device) : Option Record :=
  f.transactions.store.store.read (versionKey d.id)

/-- How far a rollout is that nobody stops: what its worker has in hand and what is under way to the
device belong to the step whose turn it is, the device runs the version that arrived once the bundle
has been pushed, and that version is on record once it has been checked. -/
structure Progress (d : Device) (config : Config) (id : JobId) (bundle version : String)
    (before : Option Record) (f : Fleet) (e : JobEntry) : Prop where
  unasked : e.stop = false
  shown : e.snapshot.currentStep ≤ e.achieved
  hand : ∀ run, e.stage.run? = some run →
    ∃ errand : Errand, e.job.currentStep = errand.index ∧ errand.Binds bundle version run
  acting : ∀ run program (errand : Errand), e.stage = .acting run program →
    e.job.currentStep = errand.index →
      program = errand.program d.id bundle version config.requestTimeout
  waiting : ∀ run s, e.stage = .waiting run s → ∃ (errand : Errand) (key : CorrelationKey),
    e.job.currentStep = errand.index ∧ s = .reply key (errand.next d.id version) ∧
      f.Underway d (some id) bundle version errand key
  idle : (∀ run s, e.stage ≠ .waiting run s) → f.Idle d
  delivered : 1 ≤ e.achieved → f.Runs (arriving bundle version)
  unrecorded : e.achieved ≤ 1 → f.versionOf d = before
  recorded : 2 ≤ e.achieved → arriving bundle version = version ∧
    (f.versionOf d).map Record.value = some (Text.utf8 version)

variable {d : Device} {config : Config} {id : JobId} {bundle version : String}
  {before : Option Record} {f g : Fleet} {e : JobEntry} {retry : Errand → Option RetryPolicy}

/-- A rollout that was just submitted has achieved nothing. -/
theorem progress_new (job : Job) (hstep : job.currentStep = 0) (hidle : f.Idle d) :
    Progress d config id bundle version (f.versionOf d) f (.new job) := by
  have hachieved : (JobEntry.new job).achieved = 0 := hstep
  exact {
    unasked := rfl
    shown := hachieved ▸ Nat.le_of_eq hstep
    hand := nofun
    acting := nofun
    waiting := nofun
    idle := fun _ => hidle
    delivered := fun h => absurd h (by rw [hachieved]; decide)
    unrecorded := fun _ => rfl
    recorded := fun h => absurd h (by rw [hachieved]; decide) }

/-- A step that passes the device and the job by leaves the rollout where it is. -/
theorem Progress.passesBy (h : Progress d config id bundle version before f e)
    (hpasses : PassesBy d (some id) f g) : Progress d config id bundle version before g e where
  unasked := h.unasked
  shown := h.shown
  hand := h.hand
  acting := h.acting
  waiting run s hstage := by
    obtain ⟨errand, key, hindex, hs, hunderway⟩ := h.waiting run s hstage
    exact ⟨errand, key, hindex, hs, hpasses.underway hunderway⟩
  idle hwaits := hpasses.idle (h.idle hwaits)
  delivered hachieved := hpasses.runs (h.delivered hachieved)
  unrecorded hachieved := hpasses.record.trans (h.unrecorded hachieved)
  recorded hachieved := by
    rw [versionOf, hpasses.record]
    exact h.recorded hachieved

/-- A step that brings what is under way further. -/
theorem Progress.conveyed (h : Progress d config id bundle version before f e)
    (hconveyed : ∀ (errand : Errand) (key : CorrelationKey), e.job.currentStep = errand.index →
      f.Underway d (some id) bundle version errand key →
        Conveyed d config (some id) bundle version errand key f g)
    (hbusy : ¬f.Idle d) : Scene d config (some id) g ∧ g.jobs = f.jobs ∧
      Progress d config id bundle version before g e := by
  have hwaiting : ∃ run s, e.stage = .waiting run s := by
    by_contra hnot
    simp only [not_exists] at hnot
    exact hbusy (h.idle hnot)
  obtain ⟨run, s, hstage⟩ := hwaiting
  obtain ⟨errand, key, hindex, hs, hunderway⟩ := h.waiting run s hstage
  have hg := hconveyed errand key hindex hunderway
  refine ⟨hg.scene, hg.jobs, ?_⟩
  exact {
    unasked := h.unasked
    shown := h.shown
    hand := h.hand
    acting := h.acting
    waiting := fun run' s' hstage' => by
      cases hstage.symm.trans hstage'
      exact ⟨errand, key, hindex, hs, hg.underway⟩
    idle := fun hwaits => (hwaits run s hstage).elim
    delivered := fun hachieved => hg.runs (h.delivered hachieved)
    unrecorded := fun hachieved => hg.record.trans (h.unrecorded hachieved)
    recorded := fun hachieved => by
      rw [versionOf, hg.record]
      exact h.recorded hachieved }

/-- While the version is checked, the device runs the one that arrived. -/
theorem Progress.runs_of_check (h : Progress d config id bundle version before f e)
    {errand : Errand} (hindex : e.job.currentStep = errand.index) (hcheck : errand = .check) :
    f.Runs (arriving bundle version) := by
  subst hcheck
  refine h.delivered ?_
  unfold JobEntry.achieved
  split <;> rw [hindex] <;> decide

/-- A delivery to the device or of its reply. -/
theorem Progress.deliveryTurn (h : Progress d config id bundle version before f e)
    (hf : Scene d config (some id) f) (hd : d.Willing config) {m : Message} {rest : List Message}
    (hinbox : f.broker.inbox = m :: rest) (hm : d.concerns m = true) :
    Scene d config (some id) f.deliveryTurn.fleet ∧ f.deliveryTurn.fleet.jobs = f.jobs ∧
      Progress d config id bundle version before f.deliveryTurn.fleet e :=
  h.conveyed (fun _ _ _ hunderway => hf.conveyed_delivery hd hunderway hinbox hm)
    fun hidle => mail_ne_nil hinbox hm hidle.mail

/-- A turn of the device. -/
theorem Progress.responderTurn (h : Progress d config id bundle version before f e)
    (hf : Scene d config (some id) f) (hd : d.Willing config) {index : Nat} {r : Responder}
    (hr : f.responders[index]? = some r) (hlive : r.stage ≠ .gone) :
    Scene d config (some id) (f.responderTurn index).fleet ∧
      (f.responderTurn index).fleet.jobs = f.jobs ∧
      Progress d config id bundle version before (f.responderTurn index).fleet e :=
  h.conveyed (fun _ _ hindex hunderway =>
      hf.conveyed_responder hd hunderway (h.runs_of_check hindex) hr hlive)
    fun hidle => hlive (hidle.resting index r hr)

/-- In the scene every record is taken. -/
theorem Scene.persist_eq (hf : Scene d config (some id) f) (job : Job) :
    (f.persist job).1 = .ok () := by
  obtain ⟨tx, m, hpersist, -⟩ := persist_taken hf.store job
  rw [hpersist]

/-- A turn of the worker in which it runs no program. -/
theorem Progress.idleTurn (h : Progress d config id bundle version before f e)
    (hf : Scene d config (some id) f) (he : f.jobs.get? id = some e) (hstanding : e.Standing)
    (hadvances : e.Advances (steps bundle version retry) config)
    (hregistry : register .empty = .ok f.registry) (hidle : (e.work f id).Idle) :
    Scene d config (some id) (f.workerTurn id).fleet ∧
      ∃ e', (f.workerTurn id).fleet.jobs.get? id = some e' ∧
        Progress d config id bundle version before (f.workerTurn id).fleet e' := by
  have hcancels (job : Job) (next : Except Fault Unit → Job → JobEntry → JobEntry)
      (hwork : e.work f id = .record job true next) : some id ≠ some id := by
    rcases JobEntry.record_cases hwork with
      ⟨event, policy, tries, state, hstage, -, -, hcancels, -⟩ |
      ⟨run, -, -, hcancels, -⟩ | ⟨run, -, -, hcancels, -⟩ | ⟨run, -, -, hcancels, -⟩
    · have hevent := of_decide_eq_true hcancels.symm
      have hbefits := hstanding.befits
      rw [hstage, hevent] at hbefits
      cases h.unasked.symm.trans (hadvances.asked hbefits.2)
    · cases hcancels
    · cases hcancels
    · cases hcancels
  obtain ⟨hscene, hpasses⟩ := hf.idleTurn he hidle hcancels
  obtain ⟨e', he', hbrings⟩ := (workerTurn_works he (hf.ids id e he)).brings he
  obtain ⟨hachieved, hstep⟩ := JobEntry.achieved_of_idle hf.persist_eq hidle hbrings
  have hperforms {run : StepRun} {program : Program Stepping (Except Fault Unit)}
      (hwork : e.work f id = .perform run program) : False := by
    rw [hwork] at hidle
    exact hidle
  refine ⟨hscene, e', he', ?_⟩
  exact {
    unasked := (JobEntry.stop_of_idle hidle hbrings).trans h.unasked
    shown := hachieved ▸ JobEntry.currentStep_le_of_brings hbrings h.shown
    hand := fun run hrun => by
      have hsame : e'.job.currentStep = e.job.currentStep := by
        refine hstep.resolve_left fun hnone => ?_
        cases hnone.symm.trans hrun
      rw [hsame]
      cases JobEntry.takes_of_brings hbrings hrun with
      | kept hbefore => exact h.hand run hbefore
      | chosen _ hcurrent hlookup hrun _ =>
        obtain ⟨errand, hindex, hdefinition, hproperties⟩ := plan_of_steps hadvances.plan hcurrent
        refine ⟨errand, hindex, ?_⟩
        rw [hdefinition, lookup_step hregistry] at hlookup
        obtain rfl := Except.ok.inj hlookup
        rw [hproperties] at hrun
        exact ⟨congrArg StepRun.definition hrun, congrArg StepRun.properties hrun⟩
    acting := fun run program errand hstage hindex => by
      obtain ⟨hstarting, rfl⟩ := JobEntry.acting_of_brings hbrings hstage
      obtain ⟨errand', hindex', hbinds⟩ := h.hand run (by rw [hstarting]; rfl)
      obtain rfl := index_injective (hindex'.symm.trans hindex)
      cases hstage
      let e₁ : JobEntry := { e with
        snapshot := f.stamped e.job.beginAttempt
        job := f.stamped e.job.beginAttempt }
      have hproperties : (e₁.context f.config run).properties = run.properties := rfl
      have hbehaviour := hbinds.behaviour_eq hproperties
      rw [← hf.settings, ← hf.target id e he rfl]
      exact hbehaviour
    waiting := fun run s hstage => by
      rcases JobEntry.waiting_of_brings hbrings hstage with rfl | ⟨program, e₁, hwork, -⟩
      · obtain ⟨errand, key, hindex, hs, hunderway⟩ := h.waiting run s hstage
        exact ⟨errand, key, hindex, hs, hpasses.underway hunderway⟩
      · exact (hperforms hwork).elim
    idle := fun hwaits => by
      refine hpasses.idle (h.idle fun run s hstage => ?_)
      rw [JobEntry.work, hstage] at hbrings hidle
      dsimp only at hbrings hidle
      rw [h.unasked, if_neg Bool.false_ne_true] at hbrings hidle
      split at hbrings
      · next hresume =>
        rw [hresume] at hidle
        exact hidle
      · obtain rfl := hbrings
        exact hwaits run s hstage
    delivered := fun hle => hpasses.runs (h.delivered (hachieved ▸ hle))
    unrecorded := fun hle => hpasses.record.trans (h.unrecorded (hachieved ▸ hle))
    recorded := fun hle => by
      rw [versionOf, hpasses.record]
      exact h.recorded (hachieved ▸ hle) }

/-- What is left of an attempt comes to what was laid down for it. The version is put on record if
it is the one that was checked, and nothing else is. -/
theorem run_rest (hf : f.transactions.store.TakesCommits) (id : JobId)
    (target bundle version : String) (errand : Errand) :
    ∃ chronicle m, f.run id target (errand.rest target bundle version) =
        (.inr (errand.verdict target bundle version).outcome,
          { f with chronicle, transactions := m }) ∧ m.store.TakesCommits ∧
      (errand = .check ∧ arriving bundle version = version →
        (m.store.store.read (versionKey target)).map Record.value = some (Text.utf8 version)) ∧
      (¬(errand = .check ∧ arriving bundle version = version) →
        m.store.store = f.transactions.store.store) := by
  cases errand with
  | push => exact ⟨f.chronicle, f.transactions, rfl, hf, nofun, fun _ => rfl⟩
  | check =>
    rw [Errand.rest, Errand.verdict]
    split
    · next hsame =>
      obtain ⟨tx, m, hrun, houtages, hstore⟩ := run_keepVersion hf id target version
      refine ⟨_, m, hrun, fun o ho => hf o (houtages ▸ ho), fun _ => ?_, fun hnot => ?_⟩
      · rw [hstore, Store.read_apply_put, if_pos rfl]
        rfl
      · exact (hnot ⟨rfl, hsame⟩).elim
    · next hother =>
      exact ⟨f.chronicle, f.transactions, rfl, hf, fun h => (hother h.2).elim, fun _ => rfl⟩

/-- A turn of the job's worker in which it runs a program is what the program does and what its
result makes of the job. -/
theorem Scene.performs (hf : Scene d config (some id) f) (he : f.jobs.get? id = some e)
    {run : StepRun} {program : Program Stepping (Except Fault Unit)}
    (hwork : e.work f id = .perform run program) :
    ∃ first result k, ({ f with agenda := first } : Fleet).run id d.id program = (result, k) ∧
      (f.workerTurn id).fleet.correlator.sent = k.correlator.sent ∧
      (Scene d config (some id) k → k.jobs = f.jobs →
        Scene d config (some id) (f.workerTurn id).fleet ∧
          PassesBy d (some id) k (f.workerTurn id).fleet ∧
          (f.workerTurn id).fleet.jobs.get? id = some (e.afterRun k.config run result)) := by
  have hid := hf.ids id e he
  have htarget := hf.target id e he rfl
  have hworks := workerTurn_works he hid
  obtain ⟨e', he', hbrings⟩ := hworks.brings he
  have hid' : e'.job.id = id := (JobEntry.leaves_of_brings hbrings).id_eq.trans hid
  have hbrief' := (hf.briefs id e he).brings hf.registry hbrings
  have htarget' := (JobEntry.target_of_brings hbrings).trans htarget
  rw [hwork] at hworks
  generalize (f.workerTurn id).fleet = g at hworks he' ⊢
  cases hworks with
  | @performed _ _ result k e₁ first agenda hrun hentry =>
    rw [htarget] at hrun
    refine ⟨first, result, k, hrun, rfl, fun hk hjobs => ?_⟩
    obtain rfl := Option.some.inj ((Table.get?_set_self ..).symm.trans he')
    rw [hjobs] at hentry
    obtain rfl := Option.some.inj (hentry.symm.trans he)
    refine ⟨?_, { PassesBy.refl d (some id) k with }, he'⟩
    exact { hk.replaced agenda k.permits hid' hbrief' (fun _ => htarget')
      fun hother => (hother rfl).elim with }

/-- There is a key for the command of an attempt that begins. -/
theorem Progress.room (h : Progress d config id bundle version before f e)
    (hf : Scene d config (some id) f) (he : f.jobs.get? id = some e) {run : StepRun}
    {program : Program Stepping (Except Fault Unit)} (hstage : e.stage = .acting run program)
    (hwork : e.work f id = .perform run program)
    (hsent : (f.workerTurn id).fleet.correlator.sent < 2 ^ 64) :
    f.correlator.sent + 1 < 2 ^ 64 := by
  obtain ⟨errand, hindex, -⟩ := h.hand run (by rw [hstage]; rfl)
  obtain ⟨first, result, k, hrun, hcount, -⟩ := hf.performs he hwork
  rw [h.acting run program errand hstage hindex, Errand.program] at hrun
  have hused := sent_of_request { f with agenda := first } id d.id errand.command
    (Text.utf8 (errand.payload bundle version)) config.requestTimeout (errand.next d.id version)
  rw [hrun] at hused
  exact Nat.lt_of_le_of_lt hused (hcount ▸ hsent)

/-- An attempt that begins sends its command and waits. -/
theorem Scene.run_program (hf : Scene d config (some id) f) (hd : d.Willing config)
    (hidle : f.Idle d) (hsent : f.correlator.sent + 1 < 2 ^ 64) (errand : Errand)
    (bundle version : String) (timeout : Nat) :
    ∃ handle g, f.run id d.id (errand.program d.id bundle version timeout) =
        (.inl (.reply (Handle.key handle) (errand.next d.id version)), g) ∧
      Scene d config (some id) g ∧ g.jobs = f.jobs ∧ g.transactions = f.transactions ∧
      g.devices = f.devices ∧ g.Underway d (some id) bundle version errand handle.key := by
  obtain ⟨handle, g, hsend, hg, hjobs, htransactions, hdevices, houtcome, hunderway⟩ :=
    hf.commanded hd hidle hsent errand bundle version timeout
  refine ⟨handle, g, ?_, hg, hjobs, htransactions, hdevices, hunderway⟩
  rw [Errand.program, run_request, hsend]
  dsimp only
  rw [run_await, houtcome]

/-- The worker begins an attempt: it sends the command and waits. -/
theorem Progress.actingTurn (h : Progress d config id bundle version before f e)
    (hf : Scene d config (some id) f) (hd : d.Willing config) (he : f.jobs.get? id = some e)
    {run : StepRun} {program : Program Stepping (Except Fault Unit)}
    (hstage : e.stage = .acting run program) (hwork : e.work f id = .perform run program)
    (hsent : (f.workerTurn id).fleet.correlator.sent < 2 ^ 64) :
    Scene d config (some id) (f.workerTurn id).fleet ∧
      ∃ e', (f.workerTurn id).fleet.jobs.get? id = some e' ∧
        Progress d config id bundle version before (f.workerTurn id).fleet e' := by
  obtain ⟨errand, hindex, hbinds⟩ := h.hand run (by rw [hstage]; rfl)
  have hidle : f.Idle d := h.idle fun _ _ h => by cases hstage.symm.trans h
  have hachieved : e.achieved = e.job.currentStep :=
    JobEntry.achieved_of_not_succeeding fun _ h => by cases hstage.symm.trans h
  obtain ⟨first, result, k, hrun, -, hperforms⟩ := hf.performs he hwork
  have hfirst : Scene d config (some id) { f with agenda := first } := { hf with }
  obtain ⟨handle, r, hprogram, hr, hjobs, htransactions, hdevices, hunderway⟩ :=
    hfirst.run_program hd { hidle with } (h.room hf he hstage hwork hsent) errand bundle version
      config.requestTimeout
  rw [h.acting run program errand hstage hindex] at hrun
  cases hrun.symm.trans hprogram
  obtain ⟨hscene, hpasses, he'⟩ := hperforms hr hjobs
  refine ⟨hscene, _, he', ?_⟩
  have hruns (hbefore : f.Runs (arriving bundle version)) : k.Runs (arriving bundle version) := by
    rw [Runs, hdevices]
    exact hbefore
  have hversion : k.versionOf d = f.versionOf d := by
    rw [versionOf, htransactions]
    rfl
  have hwaiting : Progress d config id bundle version before k
      (e.goTo (.waiting run (.reply handle.key (errand.next d.id version)))) := {
    unasked := h.unasked
    shown := Nat.le_trans h.shown (Nat.le_of_eq hachieved)
    hand := fun run' hrun' => by
      cases hrun'
      exact ⟨errand, hindex, hbinds⟩
    acting := fun run' program' errand' hstage' => by cases hstage'
    waiting := fun run' s hstage' => by
      cases hstage'
      exact ⟨errand, handle.key, hindex, rfl, hunderway⟩
    idle := fun hwaits => (hwaits _ _ rfl).elim
    delivered := fun hle => hruns (h.delivered (hachieved ▸ hle))
    unrecorded := fun hle => hversion.trans (h.unrecorded (hachieved ▸ hle))
    recorded := fun hle => by
      rw [hversion]
      exact h.recorded (hachieved ▸ hle) }
  exact hwaiting.passesBy hpasses

/-- The device has answered when an attempt goes on. -/
theorem Progress.resumed (h : Progress d config id bundle version before f e)
    (hf : Scene d config (some id) f) {run : StepRun} {s : Suspension (Except Fault Unit)}
    (hstage : e.stage = .waiting run s) {program : Program Stepping (Except Fault Unit)}
    (hresume : f.resume? s = some program) :
    ∃ errand : Errand, e.job.currentStep = errand.index ∧
      program = errand.rest d.id bundle version ∧ f.Idle d ∧ f.Runs (arriving bundle version) := by
  obtain ⟨errand, key, hindex, rfl, hunderway⟩ := h.waiting run s hstage
  obtain ⟨outcome, houtcome, rfl⟩ := Option.map_eq_some_iff.1 hresume
  have hwaits (hpending : f.Waits d (some id) key) : False := by
    obtain ⟨request, hp, -⟩ := hpending
    cases houtcome.symm.trans (hf.requests.unsettled key request hp)
  cases hunderway with
  | sent _ _ _ hpending => exact (hwaits hpending).elim
  | held _ _ _ _ _ hpending => exact (hwaits hpending).elim
  | answered _ _ _ _ hpending => exact (hwaits hpending).elim
  | settled hidle hanswered htext hruns =>
    cases houtcome.symm.trans hanswered
    exact ⟨errand, hindex, errand.next_of_answer d.id htext, hidle, hruns⟩

/-- The worker goes on with an attempt and brings it to its end. -/
theorem Progress.waitingTurn (h : Progress d config id bundle version before f e)
    (hf : Scene d config (some id) f) (he : f.jobs.get? id = some e)
    {run : StepRun} {s : Suspension (Except Fault Unit)} (hstage : e.stage = .waiting run s)
    {program : Program Stepping (Except Fault Unit)} (hresume : f.resume? s = some program)
    (hwork : e.work f id = .perform run program) :
    Scene d config (some id) (f.workerTurn id).fleet ∧
      ∃ e', (f.workerTurn id).fleet.jobs.get? id = some e' ∧
        Progress d config id bundle version before (f.workerTurn id).fleet e' := by
  obtain ⟨errand, hindex, rfl, hidle, hruns⟩ := h.resumed hf hstage hresume
  have hachieved : e.achieved = errand.index := by
    rw [← hindex]
    exact JobEntry.achieved_of_not_succeeding fun _ h => by cases hstage.symm.trans h
  obtain ⟨errand', hindex', hbinds⟩ := h.hand run (by rw [hstage]; rfl)
  obtain rfl := index_injective (hindex'.symm.trans hindex)
  obtain ⟨first, result, k, hrun, -, hperforms⟩ := hf.performs he hwork
  obtain ⟨chronicle, m, hrest, htakes, hkept, hunkept⟩ :=
    run_rest (f := { f with agenda := first }) hf.store id d.id bundle version errand'
  cases hrun.symm.trans hrest
  obtain ⟨hscene, hpasses, he'⟩ := hperforms { hf with store := htakes } rfl
  refine ⟨hscene, _, he', Progress.passesBy ?_ hpasses⟩
  have hidle' : Idle d { f with agenda := first, chronicle, transactions := m } := { hidle with }
  rcases errand'.outcome_verdict d.id bundle version with ⟨rfl, hother, houtcome⟩ |
    ⟨hsame, houtcome⟩ <;> rw [houtcome]
  · let fault := misreport d.id (arriving bundle version) version
    have hpreserved := e.preserved_attemptFailed f.config run fault
    have hstep : (e.attemptFailed f.config run fault).job.currentStep = 1 :=
      hpreserved.steps.currentStep.trans hindex
    have htrying := e.not_trying_attemptFailed f.config run fault
    have hfailed : (e.attemptFailed f.config run fault).achieved = 1 := by
      rw [← hstep]
      refine JobEntry.achieved_of_not_succeeding fun run' hstage' => htrying ?_
      rw [hstage']
      trivial
    have hstore := hunkept fun hkeeps => hother hkeeps.2
    change Progress d config id bundle version before _ (e.attemptFailed f.config run fault)
    exact {
      unasked := hpreserved.stop.trans h.unasked
      shown := by
        rw [hpreserved.snapshot, hfailed]
        exact Nat.le_trans h.shown (Nat.le_of_eq hachieved)
      hand := fun run' hrun' => by
        obtain ⟨rfl, -⟩ := JobEntry.run_of_attemptFailed hrun'
        exact ⟨.check, hstep, hbinds⟩
      acting := fun run' program' errand hstage' => (htrying (hstage' ▸ trivial)).elim
      waiting := fun run' s' hstage' => (htrying (hstage' ▸ trivial)).elim
      idle := fun _ => hidle'
      delivered := fun _ => hruns
      unrecorded := fun _ => by
        rw [versionOf, hstore]
        exact h.unrecorded (Nat.le_of_eq hachieved)
      recorded := fun hle => absurd hle (by rw [hfailed]; decide) }
  · have hsucceeds : (e.goTo (.succeeding run)).achieved = errand'.index + 1 := by
      rw [← hindex]
      rfl
    change Progress d config id bundle version before _ (e.goTo (.succeeding run))
    exact {
      unasked := h.unasked
      shown := by
        rw [hsucceeds, ← hachieved]
        exact Nat.le_succ_of_le h.shown
      hand := fun run' hrun' => by
        cases hrun'
        exact ⟨errand', hindex, hbinds⟩
      acting := nofun
      waiting := nofun
      idle := fun _ => hidle'
      delivered := fun _ => hruns
      unrecorded := fun hle => by
        rw [hsucceeds] at hle
        have hpush : errand' ≠ .check := by
          rintro rfl
          cases Nat.le_of_succ_le_succ hle
        rw [versionOf, hunkept fun hkeeps => hpush hkeeps.1]
        refine h.unrecorded ?_
        rw [hachieved]
        exact Nat.le_of_succ_le hle
      recorded := fun hle => by
        have hcheck : errand' = .check := by
          cases errand' with
          | push => exact absurd (hsucceeds ▸ hle) (by decide)
          | check => rfl
        exact ⟨hsame hcheck, hkept ⟨hcheck, hsame hcheck⟩⟩ }

/-- A turn of the worker. -/
theorem Progress.workerTurn (h : Progress d config id bundle version before f e)
    (hf : Scene d config (some id) f) (hd : d.Willing config) (he : f.jobs.get? id = some e)
    (hstanding : e.Standing) (hadvances : e.Advances (steps bundle version retry) config)
    (hregistry : register .empty = .ok f.registry)
    (hsent : (f.workerTurn id).fleet.correlator.sent < 2 ^ 64) :
    Scene d config (some id) (f.workerTurn id).fleet ∧
      ∃ e', (f.workerTurn id).fleet.jobs.get? id = some e' ∧
        Progress d config id bundle version before (f.workerTurn id).fleet e' := by
  have hidleTurn := h.idleTurn hf he hstanding hadvances hregistry
  cases hwork : e.work f id with
  | change => exact hidleTurn (by rw [hwork]; trivial)
  | record => exact hidleTurn (by rw [hwork]; trivial)
  | perform run program =>
    rcases (JobEntry.perform_cases hwork).2 with hstage | ⟨s, hstage, hresume⟩
    · exact h.actingTurn hf hd he hstage hwork hsent
    · exact h.waitingTurn hf he hstage hresume hwork

/-- The worker hears of its attempts what the version that arrives decides, and every move of its
job is taken. -/
theorem Progress.hears (h : Progress d config id bundle version before f e)
    (hf : Scene d config (some id) f) (hd : d.Willing config) (he : f.jobs.get? id = some e)
    (hsent : (f.workerTurn id).fleet.correlator.sent < 2 ^ 64) :
    f.Hears (trials d.id bundle version) (fun _ _ => none) e := by
  refine ⟨?_, fun event policy tries state _ _ => hf.persist_eq _⟩
  have hid := hf.ids id e he
  have htarget := hf.target id e he rfl
  have hverdict (run : StepRun) (hrun : e.stage.run? = some run) (k : Nat) :
      ∃ errand : Errand, e.job.currentStep = errand.index ∧
        trials d.id bundle version e.job.currentStep k = errand.verdict d.id bundle version := by
    obtain ⟨errand, hindex, -⟩ := h.hand run hrun
    refine ⟨errand, hindex, ?_⟩
    rw [hindex]
    exact trials_index d.id bundle version errand k
  unfold HearsAttempts
  cases hstage : e.stage with
  | starting run =>
    obtain ⟨errand, -, htrial⟩ := hverdict run (by rw [hstage]; rfl)
      (e.job.attempts.toNat + 1)
    dsimp only
    rw [htrial, (errand.start_verdict d.id bundle version).1]
    exact hf.persist_eq _
  | succeeding run =>
    obtain ⟨errand, -, htrial⟩ := hverdict run (by rw [hstage]; rfl) e.job.attempts.toNat
    dsimp only
    rw [htrial, (errand.start_verdict d.id bundle version).2]
    exact hf.persist_eq _
  | acting run program =>
    obtain ⟨errand, hindex, -⟩ := h.hand run (by rw [hstage]; rfl)
    have hwork : e.work f id = .perform run program := by
      rw [JobEntry.work, hstage]
      dsimp only
      rw [h.unasked, if_neg Bool.false_ne_true]
    have hidle : f.Idle d := h.idle fun _ _ h => by cases hstage.symm.trans h
    obtain ⟨handle, g, hrun, -⟩ := hf.run_program hd hidle
      (h.room hf he hstage hwork hsent) errand bundle version config.requestTimeout
    dsimp only
    intro result hresult
    rw [hid, htarget, h.acting run program errand hstage hindex, hrun] at hresult
    cases hresult
  | waiting run s =>
    obtain ⟨errand, hindex, htrial⟩ := hverdict run (by rw [hstage]; rfl)
      e.job.attempts.toNat
    dsimp only
    intro program result hresume hresult
    obtain ⟨errand', hindex', rfl, -⟩ := h.resumed hf hstage hresume
    obtain rfl := index_injective (hindex'.symm.trans hindex)
    obtain ⟨chronicle, m, hrun, -⟩ := run_rest hf.store id d.id bundle version errand'
    rw [hid, htarget, hrun] at hresult
    rw [htrial]
    exact (Sum.inr.inj hresult).symm
  | _ => trivial

end Fleet

end Flotilla
