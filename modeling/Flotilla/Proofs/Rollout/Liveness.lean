import Flotilla.Proofs.Fleet.Fairness
import Flotilla.Proofs.Rollout.Outcome

/-!
# The jobs of sheltered fleets leave

Whoever waits in the middle of a brief program waits for a request that was sent just before
(`Fleet.awaited_run`). With that and with jobs whose steps are untouched when they come, every step
in the shelter leaves a fleet whose jobs get on (`Fleet.Sheltered.progressing`), so in a fair run of
a sheltered fleet every job leaves (`Fleet.Ready.leaves`).
-/

namespace Flotilla.Fleet

open Rollout

variable {f g : Fleet} {id : JobId} {s₀ : Store} {d : Device} {config : Config}
  {store : UnreliableStore} {registry : Registry} {bundle version target : String}
  {retry : Errand → Option RetryPolicy}

/-- A request that is sent waits. -/
theorem get?_pending_send {request : Request} {timeout : Nat} {handle : Handle}
    (h : (f.send request timeout).1 = .ok handle) :
    ∃ p, (f.send request timeout).2.correlator.pending.get? handle.key = some p := by
  obtain ⟨agenda, broker, events, hsend, -⟩ := f.send_eq request timeout
  rw [hsend]
  have hresult : ∃ channel, (f.correlator.send f.now f.broker.publish request timeout).1 =
      .ok (handle, channel) := by
    revert h
    unfold send
    generalize f.correlator.send f.now f.broker.publish request timeout = r
    obtain ⟨result, c⟩ := r
    rcases result with fault | ⟨handle', channel⟩
    · rintro ⟨⟩
    · rintro ⟨⟩
      exact ⟨channel, rfl⟩
  obtain ⟨channel, hresult⟩ := hresult
  exact ⟨_, f.correlator.get?_pending_send f.now f.broker.publish request timeout hresult⟩

/-- A program that waits after its command was sent waits for a request that waits. -/
theorem awaited_run {program : Program Stepping (Except Fault Unit)}
    (h : Brief target program ∨ Closing target program) {s : Suspension (Except Fault Unit)}
    (hs : (f.run id target program).1 = .inl s) : (f.run id target program).2.Awaited s := by
  rcases h with hbrief | hclosing
  · cases hbrief with
    | finished result => cases hs
    | @asks command payload timeout next hnext =>
      rw [run_request] at hs ⊢
      have hsent := fun handle => @get?_pending_send f ⟨target, command, payload, some id⟩ timeout
        handle
      generalize f.send ⟨target, command, payload, some id⟩ timeout = r at hs hsent ⊢
      obtain ⟨result, g⟩ := r
      cases result with
      | error fault =>
        obtain ⟨result, hover⟩ := run_closing (hnext (.error fault)) id g
        cases hover.symm.trans hs
      | ok handle =>
        dsimp only at hs ⊢
        rw [run_await] at hs ⊢
        cases houtcome : g.correlator.outcome? handle.key with
        | some outcome =>
          rw [houtcome] at hs
          obtain ⟨result, hover⟩ := run_closing (hnext outcome) id g
          cases hover.symm.trans hs
        | none =>
          rw [houtcome] at hs
          cases hs
          exact Or.inl (hsent handle rfl)
  · obtain ⟨result, hover⟩ := run_closing hclosing id f
    cases hover.symm.trans hs

/-- What a worker waits for stays asked for. -/
theorem Awaited.serves {s : Suspension (Except Fault Unit)} (h : f.Awaited s)
    {owner : Option JobId} (hserves : Correlator.Serves owner f.correlator g.correlator) :
    g.Awaited s := by
  cases s with
  | timer => trivial
  | reply key next =>
    rcases h with ⟨request, hpending⟩ | hsettled
    · exact (hserves.kept key request hpending).imp_left fun hp => ⟨request, hp⟩
    · obtain ⟨outcome, hout⟩ := Option.isSome_iff_exists.1 hsettled
      exact Or.inr (Option.isSome_iff_exists.2 ⟨outcome, hserves.outcome key outcome hout⟩)

/-- A worker that waits after its turn waited before it, or waits for what it has just asked for. -/
theorem awaited_workerTurn {e e' : JobEntry} (he : f.jobs.get? id = some e) (hid : e.job.id = id)
    (hbrief : e.Brief) (hbefore : ∀ run s, e.stage = .waiting run s → f.Awaited s)
    (he' : (f.workerTurn id).fleet.jobs.get? id = some e') {run : StepRun}
    {s : Suspension (Except Fault Unit)} (hstage : e'.stage = .waiting run s) :
    (f.workerTurn id).fleet.Awaited s := by
  have hworks := workerTurn_works he hid
  obtain ⟨e₁, he₁, hbrings⟩ := hworks.brings he
  cases he₁.symm.trans he'
  have hperformed {run' : StepRun} {program : Program Stepping (Except Fault Unit)}
      (hwork : e.work f id = .perform run' program) : (f.workerTurn id).fleet.Awaited s := by
    have hprogram := hbrief.perform hwork
    rw [hwork] at hworks
    generalize (f.workerTurn id).fleet = g at hworks he' ⊢
    cases hworks with
    | performed result k e₂ before agenda hrun =>
      rw [← Option.some.inj ((Table.get?_set_self ..).symm.trans he')] at hstage
      have hresult : ({ f with agenda := before }.run id e.job.target program).1 = .inl s := by
        rw [hrun]
        exact (JobEntry.result_of_waiting hstage).2
      have hawaited := awaited_run hprogram hresult
      rw [hrun] at hawaited
      cases s <;> exact hawaited
  rcases JobEntry.waiting_of_brings hbrings hstage with rfl | ⟨program, e₁, hwork, -⟩
  · exact (hbefore run s hstage).serves hworks.workerFrame.requests
  · exact hperformed hwork

/-- Jobs that are new start at the first of their steps, of which none has been touched. -/
def AddsFreshJobs (f g : Fleet) : Prop :=
  ∀ id e, f.jobs.get? id = none → g.jobs.get? id = some e →
    ∃ target steps, (∀ s ∈ steps, s.Untouched) ∧ e = .new (Job.new id target steps f.nowMs)

private theorem addsFreshJobs_of_absent (h : ∀ id, f.jobs.get? id = none → g.jobs.get? id = none) :
    AddsFreshJobs f g := fun id _ hnone he => by cases (h id hnone).symm.trans he

private theorem addsFreshJobs_of_jobs (h : g.jobs = f.jobs) : AddsFreshJobs f g :=
  addsFreshJobs_of_absent fun _ hnone => h ▸ hnone

variable (f target) in
/-- A submit adds a fresh job. -/
theorem addsFreshJobs_submit {steps : List JobStep} (hsteps : ∀ s ∈ steps, s.Untouched) :
    AddsFreshJobs f (f.submit target steps).2 := by
  rcases f.submit_new target steps with ⟨fault, m, hsubmit, -⟩ |
    ⟨job, tx, m, agenda, rfl, hsubmit, -⟩ <;> rw [hsubmit]
  · exact addsFreshJobs_of_jobs rfl
  · intro id e hnone he
    dsimp only at he
    rw [Table.get?_set] at he
    split at he
    · next hid =>
      cases he
      exact ⟨target, steps, hsteps, hid ▸ rfl⟩
    · cases hnone.symm.trans he

/-- A sheltered step adds fresh jobs only. -/
theorem Sheltered.addsFreshJobs (hstep : Sheltered d f g) (hf : f.Fit) : AddsFreshJobs f g := by
  cases hstep with
  | turn task =>
    cases task with
    | delivery => exact addsFreshJobs_of_jobs f.beside_deliveryTurn.aside.jobs
    | supervisor => exact addsFreshJobs_of_jobs f.beside_supervisorTurn.aside.jobs
    | watcher => exact addsFreshJobs_of_jobs f.beside_watcherTurn.aside.jobs
    | reader => exact addsFreshJobs_of_jobs f.aside_readerTurn.jobs
    | responder index => exact addsFreshJobs_of_jobs (f.beside_responderTurn index).aside.jobs
    | caller number => exact addsFreshJobs_of_jobs (beside_callerTurn hf.callers number).aside.jobs
    | worker job =>
      refine addsFreshJobs_of_absent fun id => ?_
      have hobeys : Obeys _ _ id f (f.workerTurn job).fleet :=
        obeys_workerTurn JobEntry.law_true hf job
      exact hobeys.absent
  | submit target steps _ hsteps => exact f.addsFreshJobs_submit target hsteps
  | stop job =>
    refine addsFreshJobs_of_absent fun id => ?_
    have hobeys : Obeys _ _ id f (f.stop job).2 := obeys_stop JobEntry.law_true f job
    exact hobeys.absent
  | publish m => exact addsFreshJobs_of_jobs (f.beside_publish m).aside.jobs
  | reschedule | pass | disturb | read | scan | write => exact addsFreshJobs_of_jobs rfl

/-- A step leaves a fleet whose jobs get on. -/
theorem Progressing.step (h : Progressing s₀ f) (hstep : Step (fun key => ¬IsJobKey key) f g)
    (hnew : AddsFreshJobs f g) (hbriefs : ∀ id e, f.jobs.get? id = some e → e.Brief)
    (hcorrelating : g.correlating = true) (hlt : g.submitted < 2 ^ 64) : Progressing s₀ g := by
  obtain ⟨owner, hserves⟩ := hstep.serves h.rooted
  have hguided {id : JobId} {e : JobEntry} (he : f.jobs.get? id = some e) :
      Guided (fun _ _ => True) id f g :=
    hstep.guided h.rooted (h.rooted.given id e he) hlt
  refine ⟨h.published.step hstep, (hstep.leads h.rooted).rooted h.rooted, hcorrelating,
    hserves.aligned h.aligned, h.queueing.hands (hstep.hands h.rooted hlt), fun id e' he' => ?_,
    fun id e' run s he' hstage => ?_⟩
  · cases he : f.jobs.get? id with
    | none =>
      obtain ⟨target, steps, hsteps, rfl⟩ := hnew id e' he he'
      have hsorted := Job.sorted_new g.config id target f.nowMs hsteps
      exact ⟨steps, ⟨JobEntry.standing_new rfl, ⟨nofun, rfl, hsorted⟩,
        fun s hs => hsteps s (List.mem_of_getElem? hs)⟩, trivial⟩
    | some e =>
      obtain ⟨steps, hkept⟩ := h.entries id e he
      obtain ⟨-, hconfig, -, e₁, he₁, hkept'⟩ := GuidedRun.keeps
        (Relation.ReflTransGen.single (hguided he)) (JobEntry.nearing_law steps _) h.published he
        hkept
      cases he'.symm.trans he₁
      exact ⟨steps, hconfig ▸ hkept'⟩
  · cases he : f.jobs.get? id with
    | none =>
      obtain ⟨target, steps, -, rfl⟩ := hnew id e' he he'
      cases hstage
    | some e =>
      have hbefore := fun run s => h.awaited id e run s he
      cases hguided he with
      | turn =>
        exact awaited_workerTurn he (h.rooted.ids id e he) (hbriefs id e he) hbefore he' hstage
      | beside _ hentry =>
        rw [he] at hentry
        obtain ⟨e₁, he₁, ha⟩ := mayBeAsked_of_rel hentry
        cases he'.symm.trans he₁
        exact (hbefore run s (ha.same.stage.symm.trans hstage)).serves hserves

/-- So does a step in the shelter. -/
theorem Sheltered.progressing {own : Option JobId} (hstep : Sheltered d f g) (h : Progressing s₀ f)
    (hf : Scene d config own f) (hg : Scene d config own g) (hlt : g.submitted < 2 ^ 64) :
    Progressing s₀ g :=
  h.step (hstep.step fun _ hkey => hkey) (hstep.addsFreshJobs h.published.fit) hf.briefs
    hg.correlating hlt

/-- A fleet with a device and no jobs has nobody who is held up. -/
theorem progressing_attached (config : Config) (store : UnreliableStore) {registry : Registry}
    (d : Device) (hregistry : registry.Spares) (hpermits : config.maxConcurrentJobs ≠ 0) :
    Progressing store.store (attached config store registry d) := by
  have hnone {id : JobId} {e : JobEntry} {P : Prop}
      (he : (attached config store registry d).jobs.get? id = some e) : P := by
    cases (get?_attached config store registry d id).symm.trans he
  exact {
    published := published_of_run hregistry (run_attached config store registry d)
    rooted := rooted_attached config store registry d
    correlating := rfl
    aligned := Correlator.aligned_new config 0
    queueing := queueing_new hpermits rfl
    entries := fun _ _ he => hnone he
    awaited := fun _ _ _ _ he => hnone he }

/-- So is a fleet that is about to get the rollout. -/
theorem Ready.progressing (h : Ready d config store registry f)
    (hpermits : config.maxConcurrentJobs ≠ 0)
    (hsent : f.correlator.sent < 2 ^ 64) (hlt : f.submitted < 2 ^ 64) :
    Progressing store.store f := by
  have hspares := h.spares
  obtain ⟨hd, htakes, hregistered, hrun⟩ := h
  induction hrun with
  | refl => exact progressing_attached config store d hspares hpermits
  | @tail k g hrun hlast ih =>
    have hk : Ready d config store registry k := ⟨hd, htakes, hregistered, hrun⟩
    have hg : Ready d config store registry g := ⟨hd, htakes, hregistered, hrun.tail hlast⟩
    have hstep : Step (fun _ => True) k g := hlast.step fun _ _ => trivial
    have hleads := hstep.leads hk.rooted
    have hsent' := Nat.lt_of_le_of_lt hleads.sent hsent
    have hlt' := Nat.lt_of_le_of_lt hleads.submitted hlt
    exact hlast.progressing (ih hsent' hlt') (hk.scene hsent' hlt').1 (hg.scene hsent hlt).1 hlt

/-- Whatever else happens in the shelter, in a fair run the worker of the rollout leaves. -/
theorem Ready.leaves (h : Ready d config store registry f) (hpermits : config.maxConcurrentJobs ≠ 0)
    {σ : Nat → Fleet} (hstart : σ 0 = (f.submit d.id (steps bundle version retry)).2)
    (hsteps : ∀ n, Sheltered d (σ n) (σ (n + 1))) (hfair : Fair σ)
    (hsent : ∀ n, (σ n).correlator.sent < 2 ^ 64) (hlt : ∀ n, (σ n).submitted < 2 ^ 64) :
    ∃ n, (σ n).HasLeft f.nextId := by
  have hrun (n : Nat) : ShelteredRun d (f.submit d.id (steps bundle version retry)).2 (σ n) := by
    induction n with
    | zero => exact hstart ▸ .refl
    | succ n ih => exact ih.tail (hsteps n)
  have hrolling (n : Nat) : Rolling d config bundle version retry f (σ n) :=
    h.rolling (hrun n) (hsent n) (hlt n)
  have hsubmit : Step (fun key => ¬IsJobKey key) f (f.submit d.id (steps bundle version retry)).2 :=
    .submit d.id (steps bundle version retry)
  have hleads := hsubmit.leads h.rooted
  have hprogressing (n : Nat) : Progressing store.store (σ n) := by
    induction n with
    | zero =>
      have hsent' := hstart ▸ hsent 0
      have hlt' := hstart ▸ hlt 0
      have hf := Nat.lt_of_le_of_lt hleads.sent hsent'
      have hf' := Nat.lt_of_le_of_lt hleads.submitted hlt'
      have hscene := (hrolling 0).scene
      rw [hstart] at hscene ⊢
      exact (h.progressing hpermits hf hf').step hsubmit
        (f.addsFreshJobs_submit d.id (untouched_steps bundle version retry))
        (h.scene hf hf').1.briefs
        hscene.correlating hlt'
    | succ n ih =>
      exact (hsteps n).progressing ih (hrolling n).scene (hrolling (n + 1)).scene (hlt _)
  have hfairRun : FairRun store.store σ := ⟨hfair, fun n => (hsteps n).step fun _ hkey => hkey,
    hprogressing, hlt⟩
  obtain ⟨e, he, -⟩ := (hrolling 0).progress
  obtain ⟨n, -, hleft⟩ := hfairRun.leaves he
  exact ⟨n, hleft⟩

end Flotilla.Fleet
