import Flotilla.Proofs.Rollout.Progress

/-!
# What becomes of a rollout

The script of a rollout lets the push succeed and the check say what the version that arrives
decides. A fleet that is ready for a rollout plays that script (`Fleet.Ready.rolling`), so a worker
that has left has either completed the job, with the version on the device and on record
(`Fleet.Rolling.rolledOut`), or has failed at the check (`Fleet.Rolling.foundOut`), with nothing new
on record (`Fleet.Rolling.untouched`).
-/

namespace Flotilla

namespace Rollout

open Errand

/-- The rollout of a version to a device, with all that decides what becomes of it. -/
def script (config : Config) (registry : Registry) (d : Device) (bundle version : String)
    (retry : Errand → Option RetryPolicy) (id : JobId) (submittedAtMs : UInt64) : Script where
  config
  registry
  trials := trials d.id bundle version
  moves _ _ := none
  id
  target := d.id
  steps := steps bundle version retry
  submittedAtMs

variable {config : Config} {registry : Registry} {d : Device} {bundle version : String}
  {retry : Errand → Option RetryPolicy} {id : JobId} {submittedAtMs : UInt64}

/-- The script of a rollout can be played. -/
theorem playable_script :
    (script config registry d bundle version retry id submittedAtMs).Playable where
  fresh := untouched_steps bundle version retry
  start hrefuses := by cases hrefuses 1 (Nat.le_refl 1) (RetryPolicy.budget_pos _)
  finish hrefuses := by cases hrefuses 1 (Nat.le_refl 1) (RetryPolicy.budget_pos _)

variable (config d bundle version retry) in
/-- The push succeeds, and the check is what is left. -/
theorem course_push (hregistry : register .empty = .ok registry) :
    ∃ s, config.course registry (trials d.id bundle version) 0 (steps bundle version retry) =
      (config.course registry (trials d.id bundle version) 1
        [{ check.step bundle version with retry := retry check }]).behind [s] :=
  ⟨_, course_of_succeeded (lookup_step hregistry bundle version push) Trial.goes_zero
    (RetryPolicy.budget_pos _) (trials_index d.id bundle version push 1)⟩

variable (config d retry id submittedAtMs) in
/-- The job completes if the version arrives as it was sent. -/
theorem final_of_eq (hregistry : register .empty = .ok registry)
    (h : arriving bundle version = version) :
    (script config registry d bundle version retry id submittedAtMs).final.state = .completed ∧
      (script config registry d bundle version retry id submittedAtMs).final.currentStep = 2 := by
  obtain ⟨s, hpush⟩ := course_push config d bundle version retry hregistry
  have hsucceeds : trials d.id bundle version 1 1 = .succeeded := by
    change trials d.id bundle version check.index 1 = _
    rw [trials_index, verdict, if_pos h]
  let step : JobStep := { check.step bundle version with retry := retry check }
  have hknown : registry.lookup step.definition = .ok check.definition :=
    lookup_step hregistry bundle version check
  have hcheck : config.course registry (trials d.id bundle version) 1 [step] = _ :=
    course_of_succeeded hknown Trial.goes_zero (RetryPolicy.budget_pos _) hsucceeds
  rw [Script.final, Script.course]
  dsimp only [script]
  rw [hpush, hcheck]
  exact ⟨rfl, rfl⟩

variable (config d retry id submittedAtMs) in
/-- It fails at the check if another version arrives. -/
theorem final_of_ne (hregistry : register .empty = .ok registry)
    (h : arriving bundle version ≠ version) :
    (script config registry d bundle version retry id submittedAtMs).final.state = .stepFailed ∧
      (script config registry d bundle version retry id submittedAtMs).final.currentStep = 1 ∧
      ∃ s,
        (script config registry d bundle version retry id submittedAtMs).final.steps[1]? = some s ∧
        s.status = .failed := by
  obtain ⟨s, hpush⟩ := course_push config d bundle version retry hregistry
  let step : JobStep := { check.step bundle version with retry := retry check }
  have hfails (k : Nat) : (trials d.id bundle version 1 k).fault? =
      some (misreport d.id (arriving bundle version) version) := by
    change (trials d.id bundle version check.index k).fault? = _
    rw [trials_index, verdict, if_neg h]
    rfl
  have hgoes (k : Nat) : (trials d.id bundle version 1).Goes k := by
    intro j _ _
    rw [Verdict.isFinal, hfails]
    rfl
  obtain ⟨k, hk⟩ := Nat.exists_eq_succ_of_ne_zero (config.policyFor step).budget_pos.ne'
  have hknown : registry.lookup step.definition = .ok check.definition :=
    lookup_step hregistry bundle version check
  have hcheck : config.course registry (trials d.id bundle version) 1 [step] = _ :=
    course_of_fault hknown (hgoes k) (Nat.le_of_eq hk.symm) (Or.inr hk.symm) (hfails (k + 1))
  rw [Script.final, Script.course]
  dsimp only [script]
  rw [hpush, hcheck]
  exact ⟨rfl, rfl, _, rfl, rfl⟩

end Rollout

namespace Fleet

open Rollout Errand

variable {config : Config} {registry : Registry} {store : UnreliableStore} {d : Device}
  {bundle version : String} {retry : Errand → Option RetryPolicy} {id : JobId} {s₀ : Store}
  {before : Option Record} {f g : Fleet} {e : JobEntry}

/-- Attaching a device is a run. -/
theorem run_attached (config : Config) (store : UnreliableStore) (registry : Registry) (d : Device)
    {may : String → Prop} :
    Run may (opened config store registry) (attached config store registry d) := by
  have hbroker : Run may (opened config store registry)
      { opened config store registry with
        broker := (attached config store registry d).broker } :=
    Relation.ReflTransGen.single (.connect _)
  exact hbroker.tail (.equip (attached config store registry d).devices)

/-- With a device attached there are still no jobs. -/
theorem rooted_attached (config : Config) (store : UnreliableStore) (registry : Registry)
    (d : Device) : (attached config store registry d).Rooted :=
  (LooseRun.steady (looseRun_of_run (run_attached config store registry d))
    (rooted_opened config store registry)).rooted

/-- Numbers and keys are given out one after the other. -/
theorem ShelteredRun.steady (h : ShelteredRun d f g) (hf : f.Rooted) : Steady f g :=
  LooseRun.steady (Relation.ReflTransGen.mono
    (fun _ _ hstep => .step (hstep.step fun _ _ => trivial)) _ _ h) hf

/-- Before there is a job for it, everything passes a device by that nothing is under way to. -/
theorem ShelteredRun.scene (h : ShelteredRun d f g) (hf : f.Rooted) (hscene : Scene d config none f)
    (hidle : f.Idle d) (hd : d.Willing config) (hsent : g.correlator.sent < 2 ^ 64)
    (hlt : g.submitted < 2 ^ 64) :
    Scene d config none g ∧ g.Idle d ∧ g.versionOf d = f.versionOf d := by
  induction h with
  | refl => exact ⟨hscene, hidle, rfl⟩
  | @tail k g hrun hlast ih =>
    have hk := (ShelteredRun.steady hrun hf).rooted
    have hstep : Step (fun _ => True) k g := hlast.step fun _ _ => trivial
    have hleads := hstep.leads hk
    obtain ⟨hscene', hidle', hversion⟩ := ih (Nat.lt_of_le_of_lt hleads.sent hsent)
      (Nat.lt_of_le_of_lt hleads.submitted hlt)
    rcases hlast.cases hscene' hd hsent hlt with hspared | ⟨id, hown, -⟩ |
      ⟨m, rest, hinbox, hm, -⟩ | ⟨index, r, hr, hlive, -⟩
    · exact ⟨hspared.scene, hspared.passesBy.idle hidle',
        hspared.passesBy.record.trans hversion⟩
    · cases hown
    · exact (mail_ne_nil hinbox hm hidle'.mail).elim
    · exact (hlive (hidle'.resting index r hr)).elim

variable (bundle version retry) in
/-- The rollout is submitted. -/
theorem Scene.submitted (hf : Scene d config none f) (hidle : f.Idle d) :
    (f.submit d.id (steps bundle version retry)).1 = .ok f.nextId ∧
      Scene d config (some f.nextId) (f.submit d.id (steps bundle version retry)).2 ∧
      (f.submit d.id (steps bundle version retry)).2.Idle d ∧
      (f.submit d.id (steps bundle version retry)).2.versionOf d = f.versionOf d := by
  obtain ⟨job, tx, m, agenda, hjob, hsubmit, houtages, hstore⟩ :=
    submit_taken hf.store d.id (steps bundle version retry)
  have hnew : (JobEntry.new job).job.id = f.nextId ∧ (JobEntry.new job).job.target = d.id := by
    rw [hjob]
    exact ⟨rfl, rfl⟩
  have hentry {id : JobId} {e : JobEntry}
      (he : (f.jobs.set f.nextId (.new job)).get? id = some e) :
      f.nextId = id ∧ e = .new job ∨ f.nextId ≠ id ∧ f.jobs.get? id = some e := by
    rw [Table.get?_set] at he
    split at he
    · next hid => exact Or.inl ⟨hid, (Option.some.inj he).symm⟩
    · next hid => exact Or.inr ⟨hid, he⟩
  rw [hsubmit]
  refine ⟨rfl, ?_, { hidle with }, ?_⟩
  · exact { hf with
      store := fun o ho => hf.store o (houtages ▸ ho)
      given := fun id hid => by
        cases hid
        exact f.toNat_nextId_le
      ids := fun id e he => by
        rcases hentry he with ⟨rfl, rfl⟩ | ⟨-, hold⟩
        · exact hnew.1
        · exact hf.ids id e hold
      briefs := fun id e he => by
        rcases hentry he with ⟨-, rfl⟩ | ⟨-, hold⟩
        · exact JobEntry.brief_new job
        · exact hf.briefs id e hold
      target := fun id e he hid => by
        rcases hentry he with ⟨-, rfl⟩ | ⟨hne, -⟩
        · exact hnew.2
        · exact (hne (Option.some.inj hid)).elim
      others := fun id e he hid => by
        rcases hentry he with ⟨hsame, -⟩ | ⟨-, hold⟩
        · exact (hid (congrArg some hsame)).elim
        · exact hf.others id e hold (Option.some_ne_none id).symm }
  · rw [versionOf, hstore]
    exact Store.read_apply_of_ne _ fun heq =>
      not_isJobKey_versionKey d.id (heq ▸ isJobKey_key _)

/-- A rollout that nobody stops is as far as its progress says at every point, and its worker hears
what the version that arrives decides. -/
theorem Progress.run (hprogress : Progress d config id bundle version before f e)
    (he : f.jobs.get? id = some e) (hscene : Scene d config (some id) f) (hf : Published s₀ f)
    (hrooted : f.Rooted) (hstanding : e.Standing)
    (hadvances : e.Advances (steps bundle version retry) f.config)
    (hregistry : register .empty = .ok f.registry) (hd : d.Willing config)
    (h : ShelteredRun d f g) (hsent : g.correlator.sent < 2 ^ 64) (hlt : g.submitted < 2 ^ 64) :
    GuidedRun (Hears (trials d.id bundle version) fun _ _ => none) id f g ∧
      Scene d config (some id) g ∧
      ∃ e', g.jobs.get? id = some e' ∧ Progress d config id bundle version before g e' := by
  induction h with
  | refl => exact ⟨.refl, hscene, e, he, hprogress⟩
  | @tail k g hrun hlast ih =>
    have hk := (ShelteredRun.steady hrun hrooted).rooted
    have hloose : Step (fun _ => True) k g := hlast.step fun _ _ => trivial
    have hleads := hloose.leads hk
    obtain ⟨hguided, hscene', e₁, he₁, hprogress'⟩ := ih (Nat.lt_of_le_of_lt hleads.sent hsent)
      (Nat.lt_of_le_of_lt hleads.submitted hlt)
    have hstep : Step (fun key => ¬IsJobKey key) k g := hlast.step fun _ hkey => hkey
    have hbeside (hjobs : g.jobs.get? id = k.jobs.get? id) :
        Guided (Hears (trials d.id bundle version) fun _ _ => none) id k g := by
      refine .beside hstep ?_
      rw [hjobs, he₁]
      exact .some (Or.inl rfl)
    rcases hlast.cases hscene' hd hsent hlt with hspared | ⟨id', hown, rfl⟩ |
      ⟨m, rest, hinbox, hm, rfl⟩ | ⟨index, r, hr, hlive, rfl⟩
    · have hentry := hspared.entry id rfl
      exact ⟨hguided.tail (hbeside hentry), hspared.scene, e₁, hentry.trans he₁,
        hprogress'.passesBy hspared.passesBy⟩
    · cases hown
      obtain ⟨-, hconfig, hsame, e₂, he₂, hstanding', hadvances'⟩ := hguided.keeps
        ((JobEntry.advances_law (steps bundle version retry)).guided _) hf he ⟨hstanding, hadvances⟩
      cases he₁.symm.trans he₂
      rw [hscene.settings] at hadvances'
      have hturn := hprogress'.workerTurn hscene' hd he₁ hstanding' hadvances'
        (hsame.symm ▸ hregistry) hsent
      refine ⟨hguided.tail (.turn fun e' he' => ?_), hturn⟩
      cases he₁.symm.trans he'
      exact hprogress'.hears hscene' hd he₁ hsent
    · obtain ⟨hg, hjobs, hprogress''⟩ := hprogress'.deliveryTurn hscene' hd hinbox hm
      exact ⟨hguided.tail (hbeside (by rw [hjobs])), hg, e₁, hjobs ▸ he₁, hprogress''⟩
    · obtain ⟨hg, hjobs, hprogress''⟩ := hprogress'.responderTurn hscene' hd hr hlive
      exact ⟨hguided.tail (hbeside (by rw [hjobs])), hg, e₁, hjobs ▸ he₁, hprogress''⟩

/-- A fleet with one device, to which nothing has been sent, is about to get the rollout. -/
structure Ready (d : Device) (config : Config) (store : UnreliableStore) (registry : Registry)
    (f : Fleet) : Prop where
  willing : d.Willing config
  takes : store.TakesCommits
  registered : register .empty = .ok registry
  run : ShelteredRun d (attached config store registry d) f

/-- The steps of a rollout spare job records. -/
theorem Ready.spares (h : Ready d config store registry f) : registry.Spares :=
  spares_register Registry.spares_empty h.registered

/-- A fleet that is ready has come there by a run. -/
theorem Ready.run_opened (h : Ready d config store registry f) :
    Run (fun key => ¬IsJobKey key) (opened config store registry) f :=
  (run_attached config store registry d).trans h.run.run

/-- In a fleet that is ready every job is in its place. -/
theorem Ready.rooted (h : Ready d config store registry f) : f.Rooted :=
  (ShelteredRun.steady h.run (rooted_attached config store registry d)).rooted

/-- The scene of a fleet that is ready, as long as keys and numbers last. -/
theorem Ready.scene (h : Ready d config store registry f) (hsent : f.correlator.sent < 2 ^ 64)
    (hlt : f.submitted < 2 ^ 64) : Scene d config none f ∧ f.Idle d := by
  have hscene := scene_attached config d h.takes (brief_register h.registered)
  have hidle : (attached config store registry d).Idle d := ⟨rfl, nofun⟩
  obtain ⟨hf, hidle', -⟩ :=
    ShelteredRun.scene h.run (rooted_attached config store registry d) hscene
    hidle h.willing hsent hlt
  exact ⟨hf, hidle'⟩

/-- All that is known of the rollout at a point of the run. -/
structure Rolling (d : Device) (config : Config) (bundle version : String)
    (retry : Errand → Option RetryPolicy) (f g : Fleet) : Prop where
  accepted : (f.submit d.id (steps bundle version retry)).1 = .ok f.nextId
  guided : GuidedRun (Hears (trials d.id bundle version) fun _ _ => none) f.nextId
    (f.submit d.id (steps bundle version retry)).2 g
  scene : Scene d config (some f.nextId) g
  progress : ∃ e, g.jobs.get? f.nextId = some e ∧
    Progress d config f.nextId bundle version (f.versionOf d) g e

/-- A rollout that is submitted to a fleet that is ready is rolling. -/
theorem Ready.rolling (h : Ready d config store registry f)
    (hthen : ShelteredRun d (f.submit d.id (steps bundle version retry)).2 g)
    (hsent : g.correlator.sent < 2 ^ 64) (hlt : g.submitted < 2 ^ 64) :
    Rolling d config bundle version retry f g := by
  have hsubmit : Step (fun key => ¬IsJobKey key) f (f.submit d.id (steps bundle version retry)).2 :=
    .submit d.id (steps bundle version retry)
  have hleads := hsubmit.leads h.rooted
  have hrooted := hleads.rooted h.rooted
  have hsteady := ShelteredRun.steady hthen hrooted
  obtain ⟨hf, hidle⟩ := h.scene
    (Nat.lt_of_le_of_lt (Nat.le_trans hleads.sent hsteady.sent) hsent)
    (Nat.lt_of_le_of_lt (Nat.le_trans hleads.submitted hsteady.submitted) hlt)
  obtain ⟨haccepted, hscene, hidle', hversion⟩ := hf.submitted bundle version retry hidle
  obtain ⟨hconfig, hsame⟩ := settings_of_run h.spares (h.run_opened.tail hsubmit)
  have hpublished := published_of_run h.spares (h.run_opened.tail hsubmit)
  have hfresh := untouched_steps bundle version retry
  let job := Job.new f.nextId d.id (steps bundle version retry) f.nowMs
  have hprogress : Progress d config f.nextId bundle version (f.versionOf d)
      (f.submit d.id (steps bundle version retry)).2 (.new job) :=
    hversion ▸ progress_new job rfl hidle'
  have hadvances : (JobEntry.new job).Advances (steps bundle version retry)
      (f.submit d.id (steps bundle version retry)).2.config :=
    ⟨⟨nofun, rfl, Job.sorted_new _ _ _ _ hfresh⟩, fun s hs => hfresh s (List.mem_of_getElem? hs)⟩
  obtain ⟨hguided, hg, hentry⟩ := hprogress.run (get?_submit haccepted) hscene hpublished hrooted
    (JobEntry.standing_new rfl) hadvances (hsame.symm ▸ h.registered) h.willing hthen hsent hlt
  exact ⟨haccepted, hguided, hg, hentry⟩

/-- The rollout has completed, with the version on the device and on record. -/
structure RolledOut (d : Device) (version : String) (g : Fleet) (e : JobEntry) : Prop where
  state : e.snapshot.state = .completed
  device : ∃ received, g.devices = [{ d with version, received }]
  record : (g.versionOf d).map Record.value = some (Text.utf8 version)

/-- The rollout has failed at the check. -/
structure FoundOut (e : JobEntry) : Prop where
  state : e.snapshot.state = .stepFailed
  currentStep : e.snapshot.currentStep = 1
  step : ∃ s, e.snapshot.steps[1]? = some s ∧ s.status = .failed

/-- A rollout whose worker has left has ended as laid down. -/
theorem Rolling.ended (h : Rolling d config bundle version retry f g)
    (hready : Ready d config store registry f) (he : g.jobs.get? f.nextId = some e)
    (hgone : e.stage = .gone) :
    e.done = true ∧ e.archived = true ∧
      (script config registry d bundle version retry f.nextId f.nowMs).Ended e.snapshot ∧
      (g.commitsOf f.nextId).getLast? = some e.snapshot.toRecord.toBytes := by
  obtain ⟨e', he', hprogress⟩ := h.progress
  cases he.symm.trans he'
  let p := script config registry d bundle version retry f.nextId f.nowMs
  obtain ⟨hpublished, hfollows⟩ := follows_of_guidedRun (p := p) hready.spares hready.run_opened
    h.accepted rfl playable_script h.guided he hprogress.unasked
  exact ended_of_gone hpublished he hfollows hgone

/-- Where the device stands when so much has been achieved. -/
theorem Rolling.device (h : Rolling d config bundle version retry f g)
    (hruns : g.Runs (arriving bundle version)) :
    ∃ received, g.devices = [{ d with version := arriving bundle version, received }] := by
  obtain ⟨running, received, hdevices⟩ := h.scene.devices
  have hversion : running = arriving bundle version :=
    hruns { d with version := running, received } (hdevices ▸ List.mem_singleton_self _)
  exact ⟨received, by rw [hdevices, hversion]⟩

/-- A rollout whose version is the one that arrives has rolled out when its worker leaves. -/
theorem Rolling.rolledOut (h : Rolling d config bundle version retry f g)
    (hready : Ready d config store registry f) (he : g.jobs.get? f.nextId = some e)
    (hgone : e.stage = .gone) (hsame : arriving bundle version = version) :
    RolledOut d version g e := by
  obtain ⟨-, -, hended, -⟩ := h.ended hready he hgone
  obtain ⟨hstate, hstep⟩ :=
    final_of_eq config d retry f.nextId f.nowMs hready.registered hsame
  obtain ⟨e', he', hprogress⟩ := h.progress
  cases he.symm.trans he'
  have hachieved : 2 ≤ e.achieved := by
    have hshown := hprogress.shown
    rw [hended] at hshown
    exact hstep ▸ hshown
  obtain ⟨received, hdevices⟩ := h.device (hprogress.delivered (Nat.le_of_succ_le hachieved))
  refine ⟨?_, ⟨received, by rw [hdevices, hsame]⟩, (hprogress.recorded hachieved).2⟩
  rw [hended]
  exact hstate

/-- A rollout whose version is not the one that arrives has failed at the check when its worker
leaves. -/
theorem Rolling.foundOut (h : Rolling d config bundle version retry f g)
    (hready : Ready d config store registry f) (he : g.jobs.get? f.nextId = some e)
    (hgone : e.stage = .gone) (hother : arriving bundle version ≠ version) : FoundOut e := by
  obtain ⟨-, -, hended, -⟩ := h.ended hready he hgone
  obtain ⟨hstate, hstep, hfailed⟩ :=
    final_of_ne config d retry f.nextId f.nowMs hready.registered hother
  rw [Script.Ended] at hended
  refine ⟨?_, ?_, ?_⟩ <;> rw [hended]
  · exact hstate
  · exact hstep
  · exact hfailed

/-- The version on record is only touched for the version that arrives as it was sent. -/
theorem Rolling.untouched (h : Rolling d config bundle version retry f g)
    (hother : arriving bundle version ≠ version) : g.versionOf d = f.versionOf d := by
  obtain ⟨e, -, hprogress⟩ := h.progress
  rcases Nat.lt_or_ge e.achieved 2 with hlt | hle
  · exact hprogress.unrecorded (Nat.le_of_lt_succ hlt)
  · exact (hother (hprogress.recorded hle).1).elim

end Fleet

end Flotilla
