import Flotilla.Proofs.Fleet.Sparing
import Flotilla.Proofs.Fleet.Working
import Flotilla.Proofs.Worker.Deciding

/-!
# What decisions leave alone

Whatever a worker decides, the job keeps its number and its state, the snapshot stays what it is,
and a stop that was asked for stays asked for (`JobEntry.Preserved`). Only recording a job changes
its state, and only when the store takes the record. If the definitions of steps spare job records,
so does every program that a worker comes to hold (`Stage.Spares`).
-/

namespace Flotilla

/-- A definition whose attempts spare job records. -/
def StepDefinition.Spares (d : StepDefinition) : Prop := ∀ ctx, (d.behaviour ctx).Spares

/-- Definitions whose steps spare job records. -/
def Registry.Spares (r : Registry) : Prop := ∀ key d, r.lookup key = .ok d → d.Spares

/-- Definitions that all have a property. -/
def Registry.All (D : StepDefinition → Prop) (r : Registry) : Prop :=
  ∀ key d, r.lookup key = .ok d → D d

/-- The empty registry has no definitions to speak of. -/
theorem Registry.all_empty (D : StepDefinition → Prop) : Registry.empty.All D := nofun

private theorem Registry.All.register {D : StepDefinition → Prop} {r r' : Registry} {d :
    StepDefinition} (h : r.All D) (hd : D d) (hr : r.register d = .ok r') : r'.All D := by
  unfold Registry.register at hr
  split at hr
  · cases hr
  · cases hr
    intro key d' hlookup
    rw [Registry.lookup, Table.get?_set] at hlookup
    split at hlookup
    · next d'' hget =>
      cases hlookup
      split at hget
      · cases hget
        exact hd
      · exact h key d' (by rw [Registry.lookup, hget])
    · cases hlookup

/-- Registering definitions with a property keeps it true of all. -/
theorem Registry.All.registerAll {D : StepDefinition → Prop} {r r' : Registry}
    {definitions : List StepDefinition} (h : r.All D) (hd : ∀ d ∈ definitions, D d)
    (hr : definitions.foldlM Registry.register r = .ok r') : r'.All D := by
  induction definitions generalizing r with
  | nil =>
    cases hr
    exact h
  | cons d rest ih =>
    rw [List.foldlM_cons] at hr
    cases hregister : r.register d with
    | error fault =>
      rw [hregister] at hr
      cases hr
    | ok r₁ =>
      rw [hregister] at hr
      have hone : r₁.All D := h.register (hd d List.mem_cons_self) hregister
      exact ih hone (fun d hrest => hd d (List.mem_cons_of_mem _ hrest)) hr

/-- The empty registry spares job records. -/
theorem Registry.spares_empty : Registry.empty.Spares := nofun

/-- Registering a definition that spares job records keeps a registry doing so. -/
theorem Registry.Spares.register {r r' : Registry} {d : StepDefinition} (h : r.Spares)
    (hd : d.Spares) (hr : r.register d = .ok r') : r'.Spares :=
  Registry.All.register h hd hr

/-- What a worker holds at a stage spares job records. -/
def Stage.Spares : Stage → Prop
  | .starting run | .succeeding run | .pausing run | .backingOff run _ => run.definition.Spares
  | .acting run program => run.definition.Spares ∧ program.Spares
  | .waiting run suspension =>
    run.definition.Spares ∧ Fleet.SparesAfter (.inl suspension)
  | .queued | .moving .. | .resting .. | .choosing | .leaving _ | .gone => True

namespace JobEntry

/-- What no decision changes. -/
structure Preserved (e e' : JobEntry) : Prop where
  snapshot : e'.snapshot = e.snapshot
  id : e'.job.id = e.job.id
  state : e'.job.state = e.job.state
  stop : e'.stop = e.stop
  /-- Nobody is asked to stop by a decision. -/
  asked : e'.phase = .stopRequested → e.phase = .stopRequested
  steps : e.job.Resembles e'.job

variable {e e' e'' : JobEntry} {config : Config} {run : StepRun}

/-- Where phase, stop, snapshot and state stay and the steps resemble each other, an entry is
preserved. -/
theorem Preserved.of_phase_eq (hsnapshot : e'.snapshot = e.snapshot) (hid : e'.job.id = e.job.id)
    (hstate : e'.job.state = e.job.state) (hstop : e'.stop = e.stop) (hphase : e'.phase = e.phase)
    (hsteps : e.job.Resembles e'.job) : e.Preserved e' :=
  ⟨hsnapshot, hid, hstate, hstop, fun h => hphase ▸ h, hsteps⟩

private theorem Preserved.refl (e : JobEntry) :
    e.Preserved e := .of_phase_eq rfl rfl rfl rfl rfl (.refl _)

/-- What is preserved twice over is preserved. -/
theorem Preserved.trans (h : e.Preserved e') (k : e'.Preserved e'') : e.Preserved e'' :=
  ⟨k.snapshot.trans h.snapshot, k.id.trans h.id, k.state.trans h.state, k.stop.trans h.stop,
    fun ha => h.asked (k.asked ha), h.steps.trans k.steps⟩

private theorem preserved_goTo (e : JobEntry) (stage : Stage) : e.Preserved (e.goTo stage) :=
  .of_phase_eq rfl rfl rfl rfl rfl (.refl _)

private theorem preserved_modifyCurrent (e : JobEntry) (change : JobStep → JobStep) :
    e.Preserved { e with job := e.job.modifyCurrent change } :=
  .of_phase_eq rfl rfl rfl rfl rfl (e.job.resembles_modifyCurrent change)

private theorem preserved_conclude (e : JobEntry) (config : Config) (event : JobEvent)
    (failure : Option Fault) : e.Preserved (e.conclude config event failure) := by
  rcases e.conclude_cases config event failure with ⟨-, h⟩ | ⟨-, h⟩ <;> rw [h]
  · exact e.preserved_goTo _
  · cases failure <;> exact ⟨rfl, rfl, rfl, rfl, nofun, .of_eq rfl rfl rfl⟩

private theorem preserved_choose (e : JobEntry) (config : Config) (registry : Registry) :
    e.Preserved (e.choose config registry) := by
  rcases e.choose_cases config registry with
    ⟨-, h⟩ | ⟨-, -, h⟩ | ⟨-, s, fault, -, -, h⟩ | ⟨-, s, d, -, -, h⟩ <;> rw [h]
  · exact e.preserved_goTo _
  · exact e.preserved_conclude config _ _
  · exact (e.preserved_modifyCurrent _).trans (preserved_conclude _ config _ _)
  · exact e.preserved_goTo _

/-- A failed attempt leaves the state of the job and what was asked of it. -/
theorem preserved_attemptFailed (e : JobEntry) (config : Config) (run : StepRun) (fault : Fault) :
    e.Preserved (e.attemptFailed config run fault) := by
  rcases e.attemptFailed_cases config run fault with
    ⟨-, h⟩ | ⟨-, -, h⟩ | ⟨-, -, -, -, h⟩ <;> rw [h]
  · exact e.preserved_goTo _
  · exact (e.preserved_modifyCurrent _).trans (preserved_conclude _ config _ _)
  · exact (e.preserved_modifyCurrent _).trans (preserved_goTo _ _)

private theorem preserved_backOff (e : JobEntry) (now : Nat) (run : StepRun) :
    e.Preserved (e.backOff now run) := by
  rcases e.backOff_cases now run with ⟨-, h⟩ | ⟨-, h⟩ <;> rw [h] <;> exact e.preserved_goTo _

/-- What comes after a recorded move leaves the state of the job and what was asked of it. -/
theorem preserved_moved (e : JobEntry) (config : Config) (event : JobEvent) :
    e.Preserved (e.moved config event) := by
  cases event <;> first
    | exact .of_phase_eq rfl rfl rfl rfl rfl (.refl _)
    | exact .of_phase_eq rfl rfl rfl rfl rfl (e.job.resembles_modifyCurrent _)

/-- A move that is refused leaves the state of the job and what was asked of it. -/
theorem preserved_moveRefused (e : JobEntry) (now : Nat) (event : JobEvent) (policy : RetryPolicy)
    (tries : UInt32) (fault : Fault) :
    e.Preserved (e.moveRefused now event policy tries fault) := by
  rcases e.moveRefused_cases now event policy tries fault with
    ⟨-, -, h⟩ | ⟨-, ⟨-, h⟩ | ⟨-, h⟩⟩ <;> rw [h]
  · exact e.preserved_goTo _
  · exact .of_phase_eq rfl rfl rfl rfl rfl (.of_eq rfl rfl rfl)
  · exact e.preserved_goTo _

private theorem preserved_left (e : JobEntry) (result : Except Fault Unit) :
    e.Preserved (e.left result) :=
  ⟨rfl, rfl, rfl, rfl, nofun, .refl _⟩

/-- What a program comes to leaves the state of the job and what was asked of it. -/
theorem preserved_afterRun (e : JobEntry) (config : Config) (run : StepRun)
    (result : Suspension (Except Fault Unit) ⊕ Except Fault Unit) :
    e.Preserved (e.afterRun config run result) := by
  rcases result with suspension | fault | ⟨⟩
  · exact e.preserved_goTo _
  · exact e.preserved_attemptFailed config run fault
  · exact e.preserved_goTo _

private theorem spares_conclude (e : JobEntry) (config : Config) (event : JobEvent)
    (failure : Option Fault) : (e.conclude config event failure).stage.Spares := by
  rcases e.conclude_cases config event failure with ⟨-, h⟩ | ⟨-, h⟩ <;> rw [h] <;> trivial

private theorem spares_choose (e : JobEntry) (config : Config) {registry : Registry}
    (h : registry.Spares) : (e.choose config registry).stage.Spares := by
  rcases e.choose_cases config registry with
    ⟨-, hc⟩ | ⟨-, -, hc⟩ | ⟨-, s, fault, -, -, hc⟩ | ⟨-, s, d, -, hd, hc⟩ <;> rw [hc]
  · trivial
  · exact e.spares_conclude config _ _
  · exact spares_conclude _ config _ _
  · exact h _ d hd

private theorem spares_attemptFailed (e : JobEntry) (config : Config) (h : run.definition.Spares)
    (fault : Fault) : (e.attemptFailed config run fault).stage.Spares := by
  rcases e.attemptFailed_cases config run fault with
    ⟨-, hc⟩ | ⟨-, -, hc⟩ | ⟨-, -, -, -, hc⟩ <;> rw [hc]
  · trivial
  · exact spares_conclude _ config _ _
  · exact h

private theorem spares_backOff (e : JobEntry) (now : Nat) (h : run.definition.Spares) :
    (e.backOff now run).stage.Spares := by
  rcases e.backOff_cases now run with ⟨-, hc⟩ | ⟨-, hc⟩ <;> rw [hc] <;> exact h

private theorem spares_moved (e : JobEntry) (config : Config) (event : JobEvent) :
    (e.moved config event).stage.Spares := by
  cases event <;> trivial

private theorem spares_moveRefused (e : JobEntry) (now : Nat) (event : JobEvent) (policy :
    RetryPolicy) (tries : UInt32) (fault : Fault) :
    (e.moveRefused now event policy tries fault).stage.Spares := by
  rcases e.moveRefused_cases now event policy tries fault with
    ⟨-, -, h⟩ | ⟨-, ⟨-, h⟩ | ⟨-, h⟩⟩ <;> rw [h] <;> trivial

/-- A worker that goes on with what is left of a program spares job records if that does. -/
theorem spares_afterRun (e : JobEntry) (config : Config) (h : run.definition.Spares)
    {result : Suspension (Except Fault Unit) ⊕ Except Fault Unit}
    (hresult : Fleet.SparesAfter result) : (e.afterRun config run result).stage.Spares := by
  rcases result with suspension | fault | ⟨⟩
  · exact ⟨h, hresult⟩
  · exact e.spares_attemptFailed config h fault
  · exact h

end JobEntry

/-- Work that leaves alone what no decision changes. A record that the store takes becomes the
snapshot and the worker's own copy. -/
def Work.Preserves (f : Fleet) (e : JobEntry) : Work → Prop
  | .change e' => e.Preserved e'
  | .record job _ next =>
    job.id = e.job.id ∧
      (∀ fault, e.Preserved (next (.error fault) (f.stamped job) e)) ∧
      { e with snapshot := f.stamped job, job := f.stamped job }.Preserved
        (next (.ok ()) (f.stamped job) { e with snapshot := f.stamped job })
  | .perform .. => True

/-- Work that comes to hold nothing but what spares job records. -/
def Work.Spares : Work → Prop
  | .change e' => e'.stage.Spares
  | .record _ _ next => ∀ result job e, (next result job e).stage.Spares
  | .perform run program => run.definition.Spares ∧ program.Spares

namespace JobEntry

private theorem preserved_stamped (e : JobEntry) (f : Fleet) (job : Job) (hid : job.id = e.job.id)
    (hstate : job.state = e.job.state) (hsteps : e.job.Resembles job) :
    e.Preserved { e with job := f.stamped job } :=
  .of_phase_eq rfl hid hstate rfl rfl (hsteps.trans (.of_eq rfl rfl rfl))

/-- Only the record of a move changes the state of a job. -/
theorem preserves_work (e : JobEntry) (f : Fleet) (id : JobId) : (e.work f id).Preserves f e := by
  unfold work
  cases hstage : e.stage with
  | queued =>
    dsimp only
    split
    · exact ⟨rfl, rfl, rfl, rfl, nofun, .refl _⟩
    · exact .refl e
  | moving event policy tries =>
    dsimp only
    split
    · exact e.preserved_moveRefused ..
    · refine ⟨rfl, fun fault => ?_, ?_⟩
      · have hback : e.Preserved { e with job := { f.stamped e.job with state := e.job.state } } :=
          .of_phase_eq rfl rfl rfl rfl rfl (.of_eq rfl rfl rfl)
        exact hback.trans (preserved_moveRefused ..)
      · exact preserved_moved ..
  | resting event policy tries wakeAt =>
    dsimp only
    split
    · exact e.preserved_goTo _
    · exact .refl e
  | choosing => exact e.preserved_choose _ _
  | starting run =>
    refine ⟨rfl, fun fault => ?_, ?_⟩
    · exact (e.preserved_stamped f e.job.beginAttempt rfl rfl
        (e.job.resembles_modifyCurrent _)).trans
        (preserved_attemptFailed ..)
    · exact preserved_goTo ..
  | acting run program =>
    dsimp only
    split
    · exact e.preserved_goTo _
    · trivial
  | waiting run suspension =>
    dsimp only
    split
    · exact e.preserved_goTo _
    · split
      · trivial
      · exact .refl e
  | succeeding run =>
    refine ⟨rfl, fun fault => ?_, ?_⟩
    · exact (e.preserved_stamped f e.job rfl rfl (.refl _)).trans (preserved_attemptFailed ..)
    · exact preserved_goTo ..
  | pausing run =>
    refine ⟨rfl, fun fault => ?_, ?_⟩
    · exact (e.preserved_stamped f e.job rfl rfl (.refl _)).trans (preserved_backOff ..)
    · exact preserved_backOff ..
  | backingOff run wakeAt =>
    dsimp only
    split
    · exact e.preserved_goTo _
    · split
      · exact e.preserved_goTo _
      · exact .refl e
  | leaving result => exact e.preserved_left result
  | gone => exact .refl e

/-- What is left of a program that spares job records spares them. -/
theorem spares_resume? {f : Fleet} {suspension : Suspension (Except Fault Unit)}
    {program : Program Stepping (Except Fault Unit)}
    (hs : Fleet.SparesAfter (.inl suspension)) (h : f.resume? suspension = some program) :
    program.Spares := by
  cases suspension with
  | reply key next =>
    obtain ⟨outcome, -, rfl⟩ := Option.map_eq_some_iff.1 h
    exact hs outcome
  | timer wakeAt next =>
    unfold Fleet.resume? at h
    dsimp only at h
    split at h
    · cases h
      exact hs
    · cases h

/-- What a worker does next spares job records if its stage and the registry do. -/
theorem spares_work (e : JobEntry) (f : Fleet) (id : JobId) (he : e.stage.Spares)
    (hr : f.registry.Spares) : (e.work f id).Spares := by
  unfold work
  cases hstage : e.stage with
  | queued =>
    dsimp only
    split
    · trivial
    · exact he
  | moving event policy tries =>
    dsimp only
    split
    · exact e.spares_moveRefused ..
    · rintro (fault | ⟨⟩) job e'
      · exact spares_moveRefused ..
      · exact spares_moved ..
  | resting event policy tries wakeAt =>
    dsimp only
    split
    · trivial
    · exact he
  | choosing => exact e.spares_choose _ hr
  | starting run =>
    rw [hstage] at he
    rintro (fault | ⟨⟩) job e'
    · exact spares_attemptFailed _ _ he fault
    · exact ⟨he, he _⟩
  | acting run program =>
    dsimp only
    split
    · trivial
    · rw [hstage] at he
      exact he
  | waiting run suspension =>
    dsimp only
    split
    · trivial
    · split
      · next program hprogram =>
        rw [hstage] at he
        exact ⟨he.1, spares_resume? he.2 hprogram⟩
      · exact he
  | succeeding run =>
    rw [hstage] at he
    rintro (fault | ⟨⟩) job e'
    · exact spares_attemptFailed _ _ he fault
    · trivial
  | pausing run =>
    rw [hstage] at he
    exact fun _ _ _ => spares_backOff _ _ he
  | backingOff run wakeAt =>
    dsimp only
    split
    · trivial
    · split
      · rw [hstage] at he
        exact he
      · exact he
  | leaving result => trivial
  | gone => exact he

end JobEntry

end Flotilla
