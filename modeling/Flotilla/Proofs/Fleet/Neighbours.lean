import Flotilla.Proofs.Fleet.JobHistory
import Flotilla.Proofs.Fleet.WriteAhead
import Flotilla.Proofs.Requests.Ownership

/-!
# What a job leaves alone

All jobs share one store, one table of requests and one row of notices. Whatever the worker of a job
does in a turn, and however the job is asked to stop, every other job keeps its entry, its record,
its notices and its requests with their deadlines (`Fleet.neighbours_run`). Of its own requests the
job loses none but in the turn that records that it is stopping, and then it loses them all.
-/

namespace Flotilla

namespace JobEntry

variable {e e' : JobEntry} {f : Fleet} {id : JobId}

/-- Requests are called off exactly when it is recorded that a running job is stopping. -/
theorem Standing.cancels_iff (h : e.Standing) {job : Job} {cancels : Bool}
    {next : Except Fault Unit → Job → JobEntry → JobEntry}
    (hwork : e.work f id = .record job cancels next) :
    cancels = true ↔ e.snapshot.state = .running ∧ job.state = .stopping := by
  have hbefits := h.befits
  rw [h.snapshot]
  have hkept {s : JobState} (hs : s = e.job.state) :
      false = true ↔ e.job.state = .running ∧ s = .stopping := by
    subst hs
    refine ⟨nofun, ?_⟩
    rintro ⟨hrunning, hstopping⟩
    cases hrunning.symm.trans hstopping
  rcases record_cases hwork with ⟨event, policy, tries, state, hstage, hnext, rfl, rfl, -⟩ |
    ⟨run, -, rfl, rfl, -⟩ | ⟨run, -, rfl, rfl, -⟩ | ⟨run, -, rfl, rfl, -⟩
  · rw [hstage] at hbefits
    rw [decide_eq_true_eq]
    cases event <;> obtain ⟨hstate, -⟩ := hbefits <;> rw [hstate] at hnext ⊢ <;> cases hnext <;>
      simp
  · exact hkept rfl
  · exact hkept rfl
  · exact hkept rfl

/-- Whatever a worker holds spares job records if all definitions do. -/
theorem rule_spares : Rule fun _ registry e => registry.Spares → e.stage.Spares := by
  refine .of_same (fun _ _ e e' h hsame hr => hsame.stage ▸ h hr) fun f id e e' h hbrings hr => ?_
  have hspares := e.spares_work f id (h hr) hr
  generalize e.work f id = work at hbrings hspares
  cases work with
  | change e₁ =>
    obtain rfl := hbrings
    exact hspares
  | record job cancels next =>
    rcases hbrings with ⟨fault, -, rfl⟩ | ⟨-, rfl⟩ <;> exact hspares _ _ _
  | perform run program =>
    obtain ⟨e₁, -, rfl⟩ := hbrings
    exact e₁.spares_afterRun f.config hspares.1 (Fleet.apart_run id _ hspares.2 f).2

end JobEntry

namespace Fleet

open Correlator (Adds Revokes)

variable {f g : Fleet} {id job : JobId} {e e' : JobEntry} {config : Config}
  {store : UnreliableStore} {registry : Registry}

/-- Asking for a stop leaves the requests alone. -/
theorem correlator_stop (f : Fleet) (id : JobId) : (f.stop id).2.correlator = f.correlator := by
  rcases f.stop_cases id with ⟨fault, m, hstop, -⟩ | ⟨e, -, -, hstop⟩ |
    ⟨e, agenda, -, -, hstop⟩ <;> rw [hstop]

/-- A program of a job settles nothing, and what it sends belongs to the job. -/
theorem adds_run {α : Type} (id : JobId) (target : String) (program : Program Stepping α)
    (f : Fleet) : Adds (some id) f.correlator (f.run id target program).2.correlator := by
  refine run_induct (P := fun g => Adds (some id) f.correlator g.correlator)
    ?_ ?_ ?_ ?_ target program (.refl _ _)
  · exact fun g q hg => (g.correlator_answerStore q).symm ▸ hg
  · intro g request timeout howner hg
    have hsent : Adds (some id) g.correlator (g.send request timeout).2.correlator := by
      obtain ⟨agenda, broker, events, hsend, -⟩ := g.send_eq request timeout
      rw [hsend]
      exact howner ▸ g.correlator.adds_send g.now g.broker.publish request timeout
    exact hg.trans hsent
  · exact fun g hg => (g.correlator_stop id).symm ▸ hg
  · exact fun _ _ hg => hg

/-- A turn of a worker calls off all requests of its job if it records that the job is stopping, and
otherwise none. -/
theorem Works.requests (hstanding : e.Standing) (haligned : f.correlator.Aligned)
    (he : f.jobs.get? id = some e) (h : f.Works id e (e.work f id) g)
    (he' : g.jobs.get? id = some e') :
    if e.snapshot.state = .running ∧ e'.snapshot.state = .stopping then
      Revokes id f.correlator g.correlator
    else Adds (some id) f.correlator g.correlator := by
  have hpreserves := e.preserves_work f id
  have hsame (hsnapshot : e'.snapshot = e.snapshot) :
      ¬(e.snapshot.state = .running ∧ e'.snapshot.state = .stopping) := by
    rintro ⟨hrunning, hstopping⟩
    rw [hsnapshot, hrunning] at hstopping
    cases hstopping
  generalize hwork : e.work f id = work at h hpreserves
  cases h with
  | change e₁ agenda permits =>
    cases (Table.get?_set_self ..).symm.trans he'
    rw [if_neg (hsame hpreserves.snapshot)]
    exact .refl _ _
  | refused fault m agenda _ _ =>
    cases (Table.get?_set_self ..).symm.trans he'
    rw [if_neg (hsame (hpreserves.2.1 fault).snapshot)]
    exact .refl _ _
  | @taken recorded cancels next tx m agenda _ _ =>
    cases (Table.get?_set_self ..).symm.trans he'
    have hsnapshot : (next (.ok ()) (f.stamped recorded)
        { e with snapshot := f.stamped recorded }).snapshot = f.stamped recorded :=
      hpreserves.2.2.snapshot
    have hcancels : cancels = true ↔
        e.snapshot.state = .running ∧ (f.stamped recorded).state = .stopping := by
      have hrecorded := hstanding.cancels_iff hwork
      exact hrecorded
    rw [hsnapshot]
    cases cancels with
    | true =>
      rw [if_pos (hcancels.1 rfl)]
      exact haligned.revokes id
    | false =>
      rw [if_neg fun hstops => Bool.false_ne_true (hcancels.2 hstops)]
      exact .refl _ _
  | @performed run program result g e₁ before agenda hrun hentry =>
    have hran := ran_run id e.job.target program { f with agenda := before }
    have hadds := adds_run id e.job.target program { f with agenda := before }
    rw [hrun] at hran hadds
    obtain ⟨e₂, he₂, hasked⟩ := hran.entry e he
    cases hentry.symm.trans he₂
    cases (Table.get?_set_self ..).symm.trans he'
    rw [if_neg (hsame
      ((e₁.preserved_afterRun g.config run result).snapshot.trans hasked.same.snapshot))]
    exact hadds

/-- In every run requests and deadlines are in step. -/
theorem LooseRun.aligned (h : LooseRun (opened config store registry) f) :
    f.correlator.Aligned := by
  induction h with
  | refl => exact (orderly_opened config store registry).aligned
  | tail hrun hlast ih =>
    have hsteady := LooseRun.steady hrun (rooted_opened config store registry)
    obtain ⟨owner, hserves⟩ := hlast.serves hsteady.rooted
    exact hserves.aligned ih

/-- In every run the store and the table of jobs fit together. -/
theorem LooseRun.fit (hregistry : registry.Spares)
    (h : LooseRun (opened config store registry) f) : f.Fit := by
  have hsteady := h.steady (rooted_opened config store registry)
  have hopened : (opened config store registry).registry = registry := by
    obtain ⟨agenda, broker, correlating, held, hopened⟩ := opened_eq config store registry
    rw [hopened]
    rfl
  refine ⟨?_, hsteady.rooted.callers, hsteady.rooted.ids, fun id e he => ?_⟩
  · rw [hsteady.registry, hopened]
    exact hregistry
  · exact h.obeys JobEntry.rule_spares (fun _ _ _ _ _ => trivial) he hregistry

/-- Something is done about a job: its worker takes a turn, or somebody asks it to stop, at one go
or in two strokes. -/
inductive Acts (id : JobId) (f : Fleet) : Fleet → Prop
  | turn : Acts id f (f.workerTurn id).fleet
  | stop : Acts id f (f.stop id).2
  | claim {e : JobEntry} (he : f.tracked? id = some e) (hphase : e.phase = .running) :
    Acts id f { f with jobs := f.jobs.set id { e with phase := .stopRequested } }
  | raise {e : JobEntry} (he : f.jobs.get? id = some e)
    (hclaimed : e.phase = .stopRequested ∨ e.phase = .finished) (agenda : Agenda) :
    Acts id f { f with agenda, jobs := f.jobs.set id { e with stop := true } }

/-- Nothing that belongs to a job has changed. -/
structure Untouched (job : JobId) (f g : Fleet) : Prop where
  /-- Its snapshot, its phase, its flags and its worker. -/
  entry : g.jobs.get? job = f.jobs.get? job
  record : g.transactions.store.store.read (Job.key job) =
    f.transactions.store.store.read (Job.key job)
  notices : g.noticesOf job = f.noticesOf job
  requests : Correlator.Untouched job f.correlator g.correlator

private theorem Unmoved.untouched (h : Unmoved job f g) (hentry : g.jobs.get? job = f.jobs.get? job)
    (hrequests : Correlator.Untouched job f.correlator g.correlator) : Untouched job f g :=
  ⟨hentry, h.record, h.notices, hrequests⟩

/-- What is at most marked of a job touches no other job. -/
theorem untouched_mark (agenda : Agenda) (e' : JobEntry) (hjob : job ≠ id) :
    Untouched job f { f with agenda, jobs := f.jobs.set id e' } where
  entry := Table.get?_set_ne _ _ (Ne.symm hjob)
  record := rfl
  notices := rfl
  requests := (Adds.refl none f.correlator).untouched nofun

/-- Asking a job to stop leaves the others alone. -/
theorem untouched_stop (f : Fleet) (hjob : job ≠ id) : Untouched job f (f.stop id).2 := by
  refine ((f.quiet_stop id).unmoved job).untouched ((f.ran_stop id).others job hjob) ?_
  rw [correlator_stop]
  exact (Adds.refl none f.correlator).untouched nofun

/-- The turn of a worker leaves the other jobs alone. -/
theorem untouched_workerTurn (hf : f.Fit) (haligned : f.correlator.Aligned)
    (hstanding : ∀ e, f.jobs.get? id = some e → e.Standing) (hjob : job ≠ id) :
    Untouched job f (f.workerTurn id).fleet := by
  cases he : f.jobs.get? id with
  | none =>
    rw [workerTurn_of_none he]
    exact ⟨rfl, rfl, rfl, (Adds.refl none f.correlator).untouched nofun⟩
  | some e =>
    have hworks := workerTurn_works he (hf.ids id e he)
    have hstep : Step (fun key => ¬IsJobKey key) f (f.workerTurn id).fleet := .turn (.worker id)
    have hunmoved := hstep.unmoved hf (hworks.commits_of_ne hf he hjob)
    refine hunmoved.untouched (hworks.workerFrame.others job hjob) ?_
    obtain ⟨e', he', -⟩ := hworks.brings he
    have hrequests := hworks.requests (hstanding e he) haligned he he'
    split at hrequests
    · exact hrequests.untouched (Ne.symm hjob)
    · exact hrequests.untouched fun howner => hjob (Option.some.inj howner).symm

/-- At every point of every run of a fleet with steps of a rollout, whatever is done about a job
touches nothing that belongs to another one. A turn of its worker that records that it is stopping
calls off its own requests and no others, and nothing else calls off any; the call that stops it
touches no request. -/
theorem neighbours_run (hregistry : registry.All (· ∈ Rollout.definitions))
    (hrun : LooseRun (opened config store registry) f) (hacts : Acts id f g) :
    (∀ job, job ≠ id → Untouched job f g) ∧
    (∀ e e', f.jobs.get? id = some e → g.jobs.get? id = some e' →
      if e.snapshot.state = .running ∧ e'.snapshot.state = .stopping then
        Revokes id f.correlator g.correlator
      else Adds (some id) f.correlator g.correlator) ∧
    (f.stop id).2.correlator = f.correlator := by
  have hf := LooseRun.fit (Rollout.spares_of_all hregistry) hrun
  have hstanding : ∀ e, f.jobs.get? id = some e → e.Standing := fun e he =>
    (level_of_run hrun he).1
  refine ⟨fun job hjob => ?_, fun e e' he he' => ?_, f.correlator_stop id⟩
  · cases hacts with
    | turn => exact untouched_workerTurn hf hrun.aligned hstanding hjob
    | stop => exact f.untouched_stop hjob
    | claim => exact untouched_mark f.agenda _ hjob
    | raise _ _ agenda => exact untouched_mark agenda _ hjob
  · have hmarked (hg : g.correlator = f.correlator) (hsnapshot : e'.snapshot = e.snapshot) :
        if e.snapshot.state = .running ∧ e'.snapshot.state = .stopping then
          Revokes id f.correlator g.correlator
        else Adds (some id) f.correlator g.correlator := by
      rw [if_neg, hg]
      · exact .refl _ _
      · rintro ⟨hrunning, hstopping⟩
        rw [hsnapshot, hrunning] at hstopping
        cases hstopping
    cases hacts with
    | turn =>
      exact (workerTurn_works he (hf.ids id e he)).requests (hstanding e he) hrun.aligned he he'
    | stop =>
      obtain ⟨e₁, he₁, hasked⟩ := (f.ran_stop id).entry e he
      cases he₁.symm.trans he'
      exact hmarked (f.correlator_stop id) hasked.same.snapshot
    | claim htracked =>
      cases he.symm.trans (get?_of_tracked? htracked).1
      cases (Table.get?_set_self ..).symm.trans he'
      exact hmarked rfl rfl
    | raise he₁ =>
      cases he.symm.trans he₁
      cases (Table.get?_set_self ..).symm.trans he'
      exact hmarked rfl rfl

/-- A step that pushes a bundle. -/
def pushing : JobStep :=
  ((JobStep.new Rollout.deployBundle).withProperty "bundle" "firmware.bin").withProperty "version"
    "2.0"

/-- A fleet for rollouts at its start. -/
def openedSiblings : Fleet := opened .standard (.new []) rolloutRegistry

/-- That fleet with two jobs that wait for their devices. -/
def siblingsFleet : Fleet :=
  ((openedSiblings.submit "edge-1" [pushing]).2.submit "edge-2" [pushing]).2.turns
    (List.replicate 5 (.worker 1) ++ List.replicate 5 (.worker 2))

/-- That fleet when the first job is about to record that it is stopping. -/
def partingFleet : Fleet := (siblingsFleet.stop 1).2.turns [.worker 1]

private theorem run_partingFleet : Run (fun _ => True) openedSiblings partingFleet := by
  have hsubmit : Run (fun _ => True) openedSiblings siblingsFleet :=
    .head (.submit "edge-1" [pushing]) (.head (.submit "edge-2" [pushing]) (run_turns _ _))
  exact (hsubmit.tail (.stop 1)).trans (run_turns _ _)

/-- The request of the first job is called off, and the second job and its request are as they
were. -/
theorem neighbours_run_partingFleet :
    Untouched 2 partingFleet (partingFleet.workerTurn 1).fleet ∧
    (∃ request, partingFleet.correlator.pending.get? 1 = some request ∧
      request.owner = some 1) ∧
    (partingFleet.workerTurn 1).fleet.correlator.pending.get? 1 = none ∧
    ∃ request, (partingFleet.workerTurn 1).fleet.correlator.pending.get? 2 = some request ∧
      request.owner = some 2 := by
  have hregister : Rollout.register .empty = .ok rolloutRegistry := rfl
  have hregistry : rolloutRegistry.All (· ∈ Rollout.definitions) :=
    (Registry.all_empty _).registerAll (fun _ hd => hd) hregister
  have hturn : Acts 1 partingFleet (partingFleet.workerTurn 1).fleet := .turn
  obtain ⟨hothers, hrequests, -⟩ :=
    neighbours_run hregistry (looseRun_of_run run_partingFleet) hturn
  have hbefore : ∃ e, partingFleet.jobs.get? 1 = some e ∧ e.snapshot.state = .running :=
    ⟨_, rfl, rfl⟩
  have hafter : ∃ e, (partingFleet.workerTurn 1).fleet.jobs.get? 1 = some e ∧
      e.snapshot.state = .stopping := ⟨_, rfl, rfl⟩
  have hown : ∃ request, partingFleet.correlator.pending.get? 1 = some request ∧
      request.owner = some 1 := ⟨_, rfl, rfl⟩
  have hother : ∃ request, partingFleet.correlator.pending.get? 2 = some request ∧
      request.owner = some 2 := ⟨_, rfl, rfl⟩
  obtain ⟨e, he, hrunning⟩ := hbefore
  obtain ⟨e', he', hstopping⟩ := hafter
  have hrevokes := hrequests e e' he he'
  rw [if_pos ⟨hrunning, hstopping⟩] at hrevokes
  obtain ⟨own, howned, howner⟩ := hown
  obtain ⟨other, hwaits, hother⟩ := hother
  have huntouched := hothers 2 (by decide)
  exact ⟨huntouched, ⟨own, howned, howner⟩, (hrevokes.gone 1 own howned howner).1, other,
    (huntouched.requests.pending 2 other hother).2 hwaits, hother⟩

end Fleet

end Flotilla
