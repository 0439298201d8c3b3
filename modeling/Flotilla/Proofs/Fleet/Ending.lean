import Flotilla.Proofs.Fleet.Standing

/-!
# A stop or an ordinary end

A stop writes two flags, first the phase and then the one that a worker waits for, and anything can
happen in between (`Fleet.Fine`). A worker reads them the other way round: a stop that comes between
its two reads has claimed the phase before the turn and raises the flag after it. So the phase has
the last word. Once a stop has claimed it, no record tells of an ordinary end any more; once the
worker has claimed it, stops are refused and change nothing (`Fleet.stop_or_end`).
-/

namespace Flotilla

/-- A move that befits a job that was asked to stop does not lead to an ordinary end. -/
theorem JobEvent.Befits.isOrdinaryEnd {event : JobEvent} {state state' : JobState}
    (h : event.Befits state .stopRequested) (hnext : state.next? event = some state') :
    state'.isOrdinaryEnd = false := by
  cases event <;> obtain ⟨rfl, hphase⟩ := h <;> cases hnext <;> first | rfl | cases hphase

namespace JobEntry

/-- The stop of the job has claimed its phase, or its worker has left. -/
def Claimed (e : JobEntry) : Prop := e.phase = .stopRequested ∨ e.stage = .gone

variable {e : JobEntry} {config : Config}

private theorem phase_conclude (h : e.phase = .stopRequested) (event : JobEvent)
    (failure : Option Fault) : (e.conclude config event failure).phase = .stopRequested := by
  rcases e.conclude_cases config event failure with ⟨-, hc⟩ | ⟨hphase, -⟩
  · rw [hc]
    exact h
  · exact (hphase h).elim

private theorem phase_choose (h : e.phase = .stopRequested) (registry : Registry) :
    (e.choose config registry).phase = .stopRequested := by
  rcases e.choose_cases config registry with
    ⟨-, hc⟩ | ⟨-, -, hc⟩ | ⟨-, s, fault, -, -, hc⟩ | ⟨-, s, d, -, -, hc⟩ <;> rw [hc]
  · exact h
  · exact phase_conclude h _ _
  · have hfailed : { e with job := e.job.noting fault .failed }.phase = .stopRequested := h
    exact phase_conclude hfailed _ _
  · exact h

private theorem phase_attemptFailed (h : e.phase = .stopRequested) (run : StepRun) (fault : Fault) :
    (e.attemptFailed config run fault).phase = .stopRequested := by
  rcases e.attemptFailed_cases config run fault with
    ⟨-, hc⟩ | ⟨-, -, hc⟩ | ⟨-, -, -, -, hc⟩ <;> rw [hc]
  · exact h
  · have hfailed : { e with job := e.job.noting fault .failed }.phase = .stopRequested := h
    exact phase_conclude hfailed _ _
  · exact h

private theorem phase_backOff (e : JobEntry) (now : Nat) (run : StepRun) :
    (e.backOff now run).phase = e.phase := by
  rcases e.backOff_cases now run with ⟨-, hc⟩ | ⟨-, hc⟩ <;> rw [hc] <;> rfl

private theorem phase_moved (e : JobEntry) (config : Config) (event : JobEvent) :
    (e.moved config event).phase = e.phase := by
  cases event <;> rfl

private theorem phase_moveRefused (e : JobEntry) (now : Nat) (event : JobEvent) (policy :
    RetryPolicy) (tries : UInt32) (fault : Fault) :
    (e.moveRefused now event policy tries fault).phase = e.phase := by
  rcases e.moveRefused_cases now event policy tries fault with
    ⟨-, -, hc⟩ | ⟨-, ⟨-, hc⟩ | ⟨-, hc⟩⟩ <;> rw [hc] <;> rfl

private theorem phase_afterRun (h : e.phase = .stopRequested) (run : StepRun)
    (result : Suspension (Except Fault Unit) ⊕ Except Fault Unit) :
    (e.afterRun config run result).phase = .stopRequested := by
  rcases result with suspension | fault | ⟨⟩
  · exact h
  · exact phase_attemptFailed h run fault
  · exact h

/-- What was claimed stays claimed, and no record tells of an ordinary end. -/
theorem Standing.claimed_work (h : e.Standing) (hclaimed : e.Claimed)
    (hstate : e.job.state.isOrdinaryEnd = false) (f : Fleet) (id : JobId) :
    (e.work f id).Keeps Claimed (fun job => job.state.isOrdinaryEnd = false) f e := by
  have hbefits := h.befits
  rcases hclaimed with hphase | hgone
  · rw [hphase] at hbefits
    unfold work
    cases hstage : e.stage with
    | queued =>
      rw [hstage] at hbefits
      cases hbefits.2
    | moving event policy tries =>
      rw [hstage] at hbefits
      dsimp only
      split
      · exact Or.inl ((phase_moveRefused ..).trans hphase)
      · next state hnext =>
        refine ⟨hbefits.isOrdinaryEnd hnext, fun fault => Or.inl ?_, Or.inl ?_⟩
        · exact (phase_moveRefused ..).trans hphase
        · exact (phase_moved ..).trans hphase
    | resting event policy tries wakeAt =>
      dsimp only
      split <;> exact Or.inl hphase
    | choosing => exact Or.inl (phase_choose hphase _)
    | starting run =>
      refine ⟨hstate, fun fault => Or.inl ?_, Or.inl hphase⟩
      have hbegun : { e with job := f.stamped e.job.beginAttempt }.phase = .stopRequested := hphase
      exact phase_attemptFailed hbegun run fault
    | acting run program =>
      dsimp only
      split
      · exact Or.inl hphase
      · rintro result e' (rfl | ⟨hrunning, -⟩)
        · exact Or.inl (phase_afterRun hphase run result)
        · cases hphase.symm.trans hrunning
    | waiting run suspension =>
      dsimp only
      split
      · exact Or.inl hphase
      · split
        · rintro result e' (rfl | ⟨hrunning, -⟩)
          · exact Or.inl (phase_afterRun hphase run result)
          · cases hphase.symm.trans hrunning
        · exact Or.inl hphase
    | succeeding run =>
      refine ⟨hstate, fun fault => Or.inl ?_, Or.inl hphase⟩
      have hback : { e with job := { e.job with
          updatedAtMs := (f.stamped e.job.completeStep).updatedAtMs } }.phase = .stopRequested :=
        hphase
      exact phase_attemptFailed hback run fault
    | pausing run =>
      refine ⟨hstate, fun fault => Or.inl ?_, Or.inl ?_⟩ <;>
      exact (phase_backOff ..).trans hphase
    | backingOff run wakeAt =>
      dsimp only
      split
      · exact Or.inl hphase
      · split <;> exact Or.inl hphase
    | leaving result => exact Or.inr rfl
    | gone => exact Or.inl hphase
  · rw [work, hgone]
    exact Or.inr hgone

/-- A phase that the worker has claimed is not given up. -/
theorem Standing.finished_work (h : e.Standing) (hphase : e.phase = .finished) (f : Fleet)
    (id : JobId) :
    (e.work f id).Keeps (fun e => e.phase = .finished) (fun _ => True) f e := by
  have hbefits := h.befits
  rw [hphase] at hbefits
  unfold work
  cases hstage : e.stage with
  | moving event policy tries =>
    dsimp only
    split
    · exact (phase_moveRefused ..).trans hphase
    · refine ⟨trivial, fun fault => ?_, ?_⟩
      · exact (phase_moveRefused ..).trans hphase
      · exact (phase_moved ..).trans hphase
  | resting event policy tries wakeAt =>
    dsimp only
    split <;> exact hphase
  | leaving result => rfl
  | gone => exact hphase
  | queued =>
    rw [hstage] at hbefits
    cases hbefits.2
  | choosing | starting | acting | waiting | succeeding | pausing | backingOff =>
    rw [hstage] at hbefits
    rcases hbefits.2 with hrunning | hasked
    · cases hrunning
    · cases hasked

end JobEntry

/-- Work that no record of an ordinary end comes from leaves a job that has not come to one. -/
theorem Work.Keeps.state {P : JobEntry → Prop} {f : Fleet} {e : JobEntry} {work : Work}
    (h : work.Keeps P (fun job => job.state.isOrdinaryEnd = false) f e)
    (hpreserves : work.Preserves f e)
    (hstate : e.job.state.isOrdinaryEnd = false) :
    work.Keeps (fun e => P e ∧ e.job.state.isOrdinaryEnd = false)
      (fun job => job.state.isOrdinaryEnd = false) f e := by
  have hsame {e₁ e₂ : JobEntry} (ht : e₁.Preserved e₂)
      (h₁ : e₁.job.state.isOrdinaryEnd = false) : e₂.job.state.isOrdinaryEnd = false := by
    rw [ht.state]
    exact h₁
  cases work with
  | change e' => exact ⟨h, hsame hpreserves hstate⟩
  | record job cancels next =>
    obtain ⟨hjob, hrefused, htaken⟩ := h
    obtain ⟨-, hrefused', htaken'⟩ := hpreserves
    exact ⟨hjob, fun fault => ⟨hrefused fault, hsame (hrefused' fault) hstate⟩, htaken,
      hsame htaken' hjob⟩
  | perform run program =>
    intro result e' ha
    have hasked : e'.job.state.isOrdinaryEnd = false := by
      rcases ha with rfl | ⟨-, rfl⟩ <;> exact hstate
    exact ⟨h result e' ha, hsame (e'.preserved_afterRun f.config run result) hasked⟩

namespace JobEntry

/-- A job that yields to a stop: the stop has claimed its phase, and it has not come to an ordinary
end. -/
def Yields (e : JobEntry) : Prop := e.Claimed ∧ e.job.state.isOrdinaryEnd = false

variable {e : JobEntry}

/-- A job whose phase a stop has claimed has not come to an ordinary end. -/
theorem Standing.yields (h : e.Standing) (hphase : e.phase = .stopRequested) : e.Yields := by
  have hbefits := h.befits
  refine ⟨Or.inl hphase, ?_⟩
  rw [hphase] at hbefits
  cases hstage : e.stage with
  | moving event | resting event =>
    rw [hstage] at hbefits
    exact (JobEvent.Befits.underway hbefits).2
  | leaving result =>
    rw [hstage] at hbefits
    rcases hbefits.1 with hfinished | hend
    · cases hfinished
    · exact hend.2
  | queued | gone =>
    rw [hstage] at hbefits
    simp [Stage.Befits] at hbefits
  | choosing | starting | acting | waiting | succeeding | pausing | backingOff =>
    rw [hstage] at hbefits
    rw [hbefits.1]
    rfl

/-- A law that also survives a stop that is asked for in two strokes. -/
structure FineLaw (P : Config → JobEntry → Prop) (R : Config → Job → Prop) : Prop
    extends Law P R where
  claimed : ∀ config e, P config e → e.phase = .running →
    P config { e with phase := .stopRequested }
  raised : ∀ config e, P config e → (e.phase = .stopRequested ∨ e.phase = .finished) →
    P config { e with stop := true }

/-- A stop that claims the phase of a running job leaves it standing. -/
theorem Standing.claim (h : e.Standing) (hphase : e.phase = .running) :
    Standing { e with phase := .stopRequested } := by
  have hbefits := h.befits
  rw [hphase] at hbefits
  refine ⟨hbefits.asked, h.snapshot, fun _ => Or.inl rfl, fun ha => ?_⟩
  cases hphase.symm.trans (h.archived ha)

/-- Every job stands as its worker's stage says, also when a stop comes in two strokes. -/
theorem fineLaw_standing : FineLaw (fun _ e => e.Standing) (fun _ _ => True) :=
  { standing_law with
    claimed := fun _ _ h hphase => h.claim hphase
    raised := fun _ _ h hclaimed => { h with stop := fun _ => hclaimed } }

/-- A job that yields to a stop goes on yielding to it. -/
theorem fineLaw_yields : FineLaw (fun _ e => e.Standing ∧ e.Yields)
    (fun _ job => job.state.isOrdinaryEnd = false) := by
  refine ⟨standing_law.refine ?_ ?_, ?_, ?_⟩
  · rintro _ e e' h hy (rfl | ⟨-, rfl⟩)
    · exact hy
    · exact ⟨Or.inl rfl, hy.2⟩
  · intro f id e h hy
    exact (h.claimed_work hy.1 hy.2 f id).state (e.preserves_work f id) hy.2
  · exact fun _ e h hphase => ⟨h.1.claim hphase, Or.inl rfl, h.2.2⟩
  · exact fun _ e h hclaimed => ⟨{ h.1 with stop := fun _ => hclaimed }, h.2⟩

/-- A job whose phase is finished stays so. -/
theorem fineLaw_finished : FineLaw (fun _ e => e.Standing ∧ e.phase = .finished)
    (fun _ _ => True) := by
  refine ⟨standing_law.refine ?_ ?_, ?_, ?_⟩
  · rintro _ e e' h hphase (rfl | ⟨hrunning, -⟩)
    · exact hphase
    · cases hphase.symm.trans hrunning
  · exact fun f id e h hphase => h.finished_work hphase f id
  · exact fun _ e h hrunning => by cases h.2.symm.trans hrunning
  · exact fun _ e h hclaimed => ⟨{ h.1 with stop := fun _ => hclaimed }, h.2⟩

end JobEntry

namespace Fleet

/-- One step of a run in which a stop may be asked for in two strokes. -/
inductive Fine (f : Fleet) : Fleet → Prop
  | step {g : Fleet} (h : Step (fun key => ¬IsJobKey key) f g) : Fine f g
  /-- Somebody claims the phase of a job that runs. -/
  | claim {id : JobId} {e : JobEntry} (he : f.tracked? id = some e) (hphase : e.phase = .running) :
    Fine f { f with jobs := f.jobs.set id { e with phase := .stopRequested } }
  /-- Somebody who has claimed the phase raises the flag. -/
  | raise {id : JobId} {e : JobEntry} (he : f.jobs.get? id = some e)
    (hclaimed : e.phase = .stopRequested ∨ e.phase = .finished) (agenda : Agenda) :
    Fine f { f with agenda, jobs := f.jobs.set id { e with stop := true } }

/-- A row of such steps. -/
abbrev FineRun : Fleet → Fleet → Prop := Relation.ReflTransGen Fine

variable {f g : Fleet} {id : JobId} {e e' : JobEntry} {s₀ : Store}
  {P : Config → JobEntry → Prop} {R : Config → Job → Prop}

/-- A job that is tracked is in the table, and not archived. -/
theorem get?_of_tracked? (h : f.tracked? id = some e) :
    f.jobs.get? id = some e ∧ e.archived = false := by
  obtain ⟨he, harchived⟩ := Option.filter_eq_some_iff.1 h
  exact ⟨he, by simpa using harchived⟩

/-- A stop that is accepted claims the phase and raises the flag, or somebody did so before. -/
theorem strokes_of_stop (h : (f.stop id).1 = .ok ()) :
    (f.stop id).2 = f ∨ ∃ e agenda, f.tracked? id = some e ∧ e.phase = .running ∧
      (f.stop id).2 = { f with
        agenda
        jobs := (f.jobs.set id { e with phase := .stopRequested }).set id
          { e with phase := .stopRequested, stop := true } } := by
  rcases f.stop_cases id with ⟨fault, m, hstop, -⟩ | ⟨e, -, -, hstop⟩ |
    ⟨e, agenda, htracked, hphase, hstop⟩
  · rw [hstop] at h
    cases h
  · exact Or.inl (hstop ▸ rfl)
  · refine Or.inr ⟨e, agenda, htracked, hphase, ?_⟩
    rw [Table.set_set, hstop]
    rfl

/-- Marking the entry of a job publishes nothing. -/
theorem quiet_mark (he : f.jobs.get? id = some e) (agenda : Agenda) (h : e.Holds e') :
    Quiet f { f with agenda, jobs := f.jobs.set id e' } := by
  have hapart : Apart f { f with agenda, jobs := f.jobs.set id e' } := .of_eq rfl rfl rfl
  refine ⟨rfl, fun hc => hc, hapart.silent, fun job => ?_⟩
  dsimp only
  rw [Table.get?_set]
  split
  · next hjob =>
    rw [← hjob, he]
    exact .some h
  · exact rel_holds_refl _

private theorem obeys_mark (he : f.jobs.get? id = some e) (agenda : Agenda)
    (h : P f.config e → P f.config e') (job : JobId) :
    Obeys P R job f { f with agenda, jobs := f.jobs.set id e' } := by
  by_cases hjob : id = job
  · subst hjob
    refine ⟨fun hnone => ?_, fun e₁ he₁ hP => ?_, fun _ _ _ => takesOnly_of_eq rfl⟩
    · cases he.symm.trans hnone
    · cases he.symm.trans he₁
      exact ⟨e', Table.get?_set_self .., h hP⟩
  · exact obeys_of_eq rfl (Table.get?_set_ne _ _ hjob) rfl

/-- A fleet all of whose jobs are published, have a number and stand as their workers' stages
say. -/
structure Attended (s₀ : Store) (f : Fleet) : Prop where
  published : Published s₀ f
  given : f.Given
  standing : ∀ id e, f.jobs.get? id = some e → e.Standing

/-- A step keeps all jobs published, numbered and standing. -/
theorem Attended.step (hf : Attended s₀ f) (h : Step (fun key => ¬IsJobKey key) f g) :
    Attended s₀ g where
  published := hf.published.step h
  given := h.given hf.published.fit hf.given
  standing := h.obeys_all JobEntry.standing_law hf.published.fit
    (fun _ _ hstate => JobEntry.standing_new hstate) hf.standing

/-- A mark that leaves a job standing keeps all of that. -/
theorem Attended.mark (hf : Attended s₀ f) (he : f.jobs.get? id = some e) (agenda : Agenda)
    (h : e.Holds e') (hstanding : e'.Standing) :
    Attended s₀ { f with agenda, jobs := f.jobs.set id e' } := by
  refine ⟨(quiet_mark he agenda h).published hf.published, fun job e₁ he₁ => ?_,
    fun job e₁ he₁ => ?_⟩ <;>
  · dsimp only at he₁
    rw [Table.get?_set] at he₁
    split at he₁
    · next hjob =>
      subst hjob
      cases he₁
      first | exact hstanding | exact hf.given id e he
    · first | exact hf.standing job e₁ he₁ | exact hf.given job e₁ he₁

/-- A fleet that has just been opened has no jobs to look after. -/
theorem attended_opened (config : Config) (store : UnreliableStore) {registry : Registry}
    (h : registry.Spares) : Attended store.store (opened config store registry) := by
  refine ⟨published_opened config store h, fun id e he => ?_, fun id e he => ?_⟩ <;>
  · rw [get?_opened] at he
    cases he

/-- A step keeps the fleet attended and every law that survives stops in two strokes. -/
theorem Fine.upholds (h : Fine f g) (hlaw : JobEntry.FineLaw P R) (hf : Attended s₀ f)
    (id : JobId) : Attended s₀ g ∧ Upholds P R id f g := by
  cases h with
  | step h => exact ⟨hf.step h, h.upholds hlaw.toLaw hf.published.fit id⟩
  | @claim job e htracked hphase =>
    have he := (get?_of_tracked? htracked).1
    refine ⟨hf.mark he f.agenda ⟨rfl, rfl, fun h => h⟩ ((hf.standing job e he).claim hphase), rfl,
      Nat.le_refl _, fun _ _ => ?_⟩
    exact obeys_mark he f.agenda (fun hP => hlaw.claimed f.config e hP hphase) id
  | @raise job e he hclaimed agenda =>
    have hstanding := hf.standing job e he
    refine ⟨hf.mark he agenda ⟨rfl, rfl, fun h => h⟩
      { hstanding with stop := fun _ => hclaimed }, rfl, Nat.le_refl _, fun _ _ => ?_⟩
    exact obeys_mark he agenda (fun hP => hlaw.raised f.config e hP hclaimed) id

/-- A run upholds every law. -/
theorem FineRun.upholds (h : FineRun f g) (hlaw : JobEntry.FineLaw P R) (hf : Attended s₀ f)
    (id : JobId) : Attended s₀ g ∧ Upholds P R id f g :=
  upholds_run (fun _ _ hf hstep => hstep.upholds hlaw hf id) hf h

/-- In every run, what observers see of the jobs is what the store took. -/
theorem FineRun.published {config : Config} {store : UnreliableStore} {registry : Registry}
    (hregistry : registry.Spares) (h : FineRun (opened config store registry) f) :
    Published store.store f :=
  (h.upholds JobEntry.fineLaw_standing (attended_opened config store hregistry) 0).1.published

/-- From now on no record tells of an ordinary end of the job, and the only end it comes to is that
of a stop. -/
def Stops (id : JobId) (f : Fleet) : Prop :=
  ∀ g, FineRun f g → g.submitted < 2 ^ 64 →
    TakesOnly (fun job => job.state.isOrdinaryEnd = false) id f g ∧
    ∃ e, g.jobs.get? id = some e ∧ (e.snapshot.isTerminal = true → e.snapshot.state = .stopped)

/-- A stop of a job that has come to its end is refused and changes nothing that is known of it. -/
structure RefusesStop (id : JobId) (f : Fleet) (e : JobEntry) : Prop where
  jobs : (f.stop id).2.jobs = f.jobs
  store : (f.stop id).2.transactions.store.store = f.transactions.store.store
  tracked : e.archived = false →
    f.stop id = (.error (.jobNotRunning id e.snapshot.state), f)
  archived : e.archived = true → e.snapshot.toRecord.toBytes.length < 2 ^ 64 →
    (f.read (Job.key id)).1.isOk = true →
    (f.stop id).1 = .error (.jobNotRunning id e.snapshot.state)
  /-- What is archived has to be read, and that can fail. -/
  unread : ∀ fault, e.archived = true → (f.read (Job.key id)).1 = .error fault →
    (f.stop id).1 = .error fault

/-- Where the store can be read, a job is what its record says. -/
theorem persisted_of_isOk (hread : (f.read (Job.key id)).1.isOk = true) :
    (f.persisted id).1 = (f.transactions.store.store.read (Job.key id)).elim (.ok none)
      fun record => (decodeJob record.value).map some := by
  unfold persisted Fleet.read at *
  dsimp only at *
  cases hresult : (f.transactions.store.read (Job.key id)).1 with
  | error fault =>
    rw [hresult] at hread
    cases hread
  | ok record =>
    rw [← UnreliableStore.read_eq_of_ok hresult]
    cases record <;> rfl

/-- What a job says of itself that is read from the store. -/
theorem persisted_of_ok (hf : Published s₀ f) (he : f.jobs.get? id = some e)
    (hlength : e.snapshot.toRecord.toBytes.length < 2 ^ 64)
    (hread : (f.read (Job.key id)).1.isOk = true) :
    (f.persisted id).1 = .ok (some e.snapshot.recorded) := by
  have hlast := (hf.snapshot id e he).2
  have hrecord := (hf.told id).read
  rw [hlast, Option.map_some, Option.some_or] at hrecord
  rw [persisted_of_isOk hread, hrecord, Option.elim_some,
    (records_toBytes e.snapshot).decoded hlength]
  rfl

/-- A job whose phase is over refuses a stop. -/
theorem refusesStop (hf : Published s₀ f) (he : f.jobs.get? id = some e)
    (hphase : e.phase = .finished) : RefusesStop id f e := by
  have hstore : (f.stop id).2.transactions.store.store = f.transactions.store.store := by
    rcases f.stop_cases id with ⟨fault, m, hstop, hm⟩ | ⟨e', _, _, hstop⟩ |
      ⟨e', agenda, _, _, hstop⟩ <;> rw [hstop]
    exact hm
  have hjobs : (f.stop id).2.jobs = f.jobs := by
    rcases f.stop_cases id with ⟨fault, m, hstop, -⟩ | ⟨e', -, -, hstop⟩ |
      ⟨e', agenda, htracked, hrunning, -⟩
    · rw [hstop]
    · rw [hstop]
    · cases he.symm.trans (get?_of_tracked? htracked).1
      cases hphase.symm.trans hrunning
  have htracked : f.tracked? id = if e.archived then none else some e := by
    rw [tracked?, he]
    cases harchived : e.archived <;> simp [harchived]
  refine ⟨hjobs, hstore, fun harchived => ?_, fun harchived hlength hread => ?_,
    fun fault harchived hread => ?_⟩
  · rw [harchived, if_neg Bool.false_ne_true] at htracked
    rw [stop, htracked]
    dsimp only
    rw [hphase]
  · rw [harchived, if_pos rfl] at htracked
    have hpersisted := persisted_of_ok hf he hlength hread
    rw [stop, htracked]
    dsimp only
    generalize f.persisted id = r at hpersisted ⊢
    obtain ⟨result, g⟩ := r
    dsimp only at hpersisted
    subst hpersisted
    rfl
  · rw [harchived, if_pos rfl] at htracked
    rw [stop, htracked]
    dsimp only
    rw [persisted]
    generalize f.read (Job.key id) = r at hread ⊢
    obtain ⟨result, g⟩ := r
    dsimp only at hread
    subst hread
    rfl

/-- A job whose phase a stop has claimed goes on to stop. -/
theorem Attended.stops (hf : Attended s₀ f) (hstanding : e.Standing)
    (he : f.jobs.get? id = some e) (hphase : e.phase = .stopRequested) : Stops id f := by
  intro g hrun hlt
  have hyields := hstanding.yields hphase
  have hobeys := (hrun.upholds JobEntry.fineLaw_yields hf id).2.obeys (hf.given id e he) hlt
  obtain ⟨e', he', hstanding', hyields'⟩ := hobeys.entry e he ⟨hstanding, hyields⟩
  refine ⟨hobeys.takes e he ⟨hstanding, hyields⟩, e', he', fun hterminal => ?_⟩
  have hstate := hyields'.2
  rw [← hstanding'.snapshot] at hstate
  change e'.snapshot.state.isTerminal = true at hterminal
  revert hterminal hstate
  cases e'.snapshot.state <;> simp [JobState.isTerminal, JobState.isOrdinaryEnd]

/-- A stop and an ordinary end exclude each other, whatever the order of what the stopper and the
worker do. Once a stop is accepted, and already once it has claimed the phase, the job comes to no
ordinary end. Once the worker has claimed the phase, every stop is refused and changes nothing.
Stopping a job anew that is being stopped succeeds and changes nothing. -/
theorem stop_or_end {config : Config} {store : UnreliableStore} {registry : Registry}
    (hregistry : registry.Spares) (hrun : FineRun (opened config store registry) f) (id : JobId) :
    ((f.stop id).1 = .ok () → Stops id (f.stop id).2) ∧
    (∀ e, f.jobs.get? id = some e → e.phase = .stopRequested → Stops id f) ∧
    (∀ e, f.jobs.get? id = some e → e.phase = .finished →
      ∀ g, FineRun f g → g.submitted < 2 ^ 64 →
        ∃ e', g.jobs.get? id = some e' ∧ e'.phase = .finished ∧ RefusesStop id g e') ∧
    ∀ e, f.tracked? id = some e → e.phase = .stopRequested → f.stop id = (.ok (), f) := by
  have hf : Attended store.store f :=
    (hrun.upholds JobEntry.fineLaw_standing (attended_opened config store hregistry) id).1
  refine ⟨fun haccepted => ?_, fun e he hphase => ?_, fun e he hphase g hthen hlt => ?_,
    fun e htracked hphase => ?_⟩
  · have hg : Attended store.store (f.stop id).2 := hf.step (.stop id)
    obtain ⟨e, he, hphase⟩ := phase_of_stop haccepted
    exact hg.stops (hg.standing id e he) he hphase
  · exact hf.stops (hf.standing id e he) he hphase
  · have hstanding := hf.standing id e he
    obtain ⟨hg, hupholds⟩ := hthen.upholds JobEntry.fineLaw_finished hf id
    have hobeys := hupholds.obeys (hf.given id e he) hlt
    obtain ⟨e', he', -, hphase'⟩ := hobeys.entry e he ⟨hstanding, hphase⟩
    exact ⟨e', he', hphase', refusesStop hg.published he' hphase'⟩
  · rw [stop, htracked]
    dsimp only
    rw [hphase]

/-- A fleet whose job is about to record the start of its first attempt. -/
def startingFleet : Fleet :=
  (((opened .standard (.new []) ⟨Table.ofList [("count", counting)]⟩).submit "edge-1"
    [.new "count"]).2).turns (List.replicate 3 (.worker 1))

/-- That fleet after the job was asked to stop and its worker has left. -/
def haltedFleet : Fleet := (startingFleet.stop 1).2.turns (List.replicate 6 (.worker 1))

/-- Turns of tasks are a run. -/
theorem fineRun_turns (f : Fleet) (tasks : List Task) : FineRun f (f.turns tasks) :=
  Relation.ReflTransGen.mono (fun _ _ => Fine.step) _ _ (run_turns f tasks)

/-- A job comes to the record of the start of its first attempt. -/
theorem fineRun_startingFleet :
    FineRun (opened .standard (.new []) ⟨Table.ofList [("count", counting)]⟩) startingFleet :=
  .head (.step (.submit "edge-1" [.new "count"])) (fineRun_turns _ _)

/-- The attempt still started, and the job has ended stopped. -/
theorem stop_or_end_haltedFleet :
    (startingFleet.stop 1).1 = .ok () ∧
    TakesOnly (fun job => job.state.isOrdinaryEnd = false) 1 (startingFleet.stop 1).2
      haltedFleet ∧
    ∃ e, haltedFleet.jobs.get? 1 = some e ∧ e.snapshot.state = .stopped := by
  have hregistry : Registry.Spares ⟨Table.ofList [("count", counting)]⟩ :=
    Registry.spares_empty.register spares_counting rfl
  have haccepted : (startingFleet.stop 1).1 = .ok () := rfl
  obtain ⟨hstops, -, -, -⟩ := stop_or_end hregistry fineRun_startingFleet 1
  obtain ⟨htakes, e, he, hend⟩ := hstops haccepted haltedFleet (fineRun_turns _ _) (by decide)
  have hterminal : ∀ e, haltedFleet.jobs.get? 1 = some e → e.snapshot.isTerminal = true := by
    rintro e ⟨⟩
    rfl
  exact ⟨haccepted, htakes, e, he, hend (hterminal e he)⟩

/-- A fleet whose store cannot read job records, at its start. -/
def openedUnread : Fleet :=
  let outage : Outage := ⟨.read, none, none, some "job/", none, .commitFailure "disk full"⟩
  opened .standard (.new [outage]) .empty

/-- That fleet after a job without steps has completed. -/
def unreadFleet : Fleet :=
  (openedUnread.submit "edge-1" []).2.turns (List.replicate 5 (.worker 1))

/-- The worker has claimed the end of the job, and yet a stop is not answered with its state. -/
theorem unreadFleet_stop :
    FineRun openedUnread unreadFleet ∧
    (∃ e, unreadFleet.jobs.get? 1 = some e ∧ e.phase = .finished ∧
      e.snapshot.state = .completed) ∧
    (unreadFleet.stop 1).1 = .error (.commitFailure "disk full") ∧
    ∀ state, (unreadFleet.stop 1).1 ≠ .error (.jobNotRunning 1 state) := by
  have hanswer : (unreadFleet.stop 1).1 = .error (.commitFailure "disk full") := rfl
  refine ⟨.head (.step (.submit "edge-1" [])) (fineRun_turns _ _), ⟨_, rfl, rfl, rfl⟩, hanswer,
    fun state hstate => ?_⟩
  cases hanswer.symm.trans hstate

end Fleet

end Flotilla
