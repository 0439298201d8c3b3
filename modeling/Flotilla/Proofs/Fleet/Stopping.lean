import Flotilla.Proofs.Deadlines
import Flotilla.Proofs.Fleet.Decisions
import Flotilla.Proofs.Fleet.Steps
import Mathlib.Algebra.Group.Nat.Defs

/-!
# What a stop leaves behind

A job that was asked to stop lets its step go, records that it is stopping, and calls its requests
off once that is on record. From then on none of its requests waits, whatever becomes of the record
of its end (`Fleet.Orderly`). When the store takes no record of the stop, its worker leaves without
calling anything off: the requests that waited wait on until somebody else settles them
(`Fleet.stop_settles_iff`).
-/

namespace Flotilla

/-- Whether a stop of the job is on record. -/
def JobState.stopRecorded : JobState → Bool
  | .stopping | .stopped => true
  | .created | .running | .stepFailed | .completed => false

/-- As long as no stop is on record, the event of a stop is the one to bring it there. -/
theorem JobState.stopRecorded_of_next? {s s' : JobState} {event : JobEvent}
    (h : s.next? event = some s') (hnot : s.stopRecorded = false) :
    s'.stopRecorded = decide (event = .stopRequested) := by
  cases s with
  | stopping | stopped => cases hnot
  | created | running | stepFailed | completed => cases event <;> cases h <;> rfl

private theorem JobState.stopRecorded_of_stopSettled {s s' : JobState}
    (h : s.next? .stopSettled = some s') : s'.stopRecorded = true := by
  cases s <;> cases h
  rfl

/-- A worker that is left with the end of a stop. -/
def Stage.Winding : Stage → Prop
  | .moving event .. | .resting event .. => event = .stopSettled
  | .leaving _ | .gone => True
  | .queued | .choosing | .starting _ | .acting .. | .waiting .. | .succeeding _ | .pausing _
  | .backingOff .. => False

/-- Work that is left after the requests have been called off. -/
def Work.Winds : Work → Prop
  | .change e => e.stage.Winding
  | .record job cancels next =>
    cancels = false ∧ job.state.stopRecorded = true ∧
      ∀ result job e, (next result job e).stage.Winding
  | .perform .. => False

/-- Work that calls requests off when a stop comes to be on record by it, and only then. -/
def Work.CallsOff : Work → Prop
  | .record job cancels next =>
    cancels = job.state.stopRecorded ∧
      (cancels = true → ∀ job e, (next (.ok ()) job e).stage.Winding)
  | .change _ | .perform .. => True

/-- Work that runs no program. -/
def Work.Idle : Work → Prop
  | .change _ | .record .. => True
  | .perform .. => False

namespace JobEntry

variable {e : JobEntry}

private theorem winding_moveRefused (e : JobEntry) (now : Nat) (policy : RetryPolicy) (tries :
    UInt32)
    (fault : Fault) : (e.moveRefused now .stopSettled policy tries fault).stage.Winding := by
  rcases e.moveRefused_cases now .stopSettled policy tries fault with
    ⟨-, -, h⟩ | ⟨-, ⟨hevent, -⟩ | ⟨-, h⟩⟩
  · rw [h]
    exact rfl
  · cases hevent
  · rw [h]
    trivial

/-- A worker that is left with the end of a stop winds it up. -/
theorem winds_work (h : e.stage.Winding) (f : Fleet) (id : JobId) : (e.work f id).Winds := by
  have hstage := h
  unfold work
  revert hstage
  cases e.stage with
  | moving event policy tries =>
    rintro rfl
    dsimp only
    split
    · exact e.winding_moveRefused f.now policy (tries + 1) (e.misplaced .stopSettled)
    · next state hnext =>
      refine ⟨rfl, JobState.stopRecorded_of_stopSettled hnext, ?_⟩
      rintro (fault | ⟨⟩) job e'
      · exact winding_moveRefused ..
      · trivial
  | resting event policy tries wakeAt =>
    rintro rfl
    dsimp only
    split
    · exact rfl
    · exact h
  | leaving result => exact fun _ => trivial
  | gone => exact fun _ => h
  | _ => exact False.elim

/-- Requests are called off when a stop comes to be on record, and only then. -/
theorem callsOff_work (h : e.job.state.stopRecorded = false) (f : Fleet) (id : JobId) :
    (e.work f id).CallsOff := by
  have hsame (next : Except Fault Unit → Job → JobEntry → JobEntry) {job : Job}
      (hjob : job.state = e.job.state) : (Work.record job false next).CallsOff :=
    ⟨(hjob ▸ h).symm, nofun⟩
  unfold work
  cases e.stage with
  | moving event policy tries =>
    dsimp only
    split
    · trivial
    · next state hnext =>
      refine ⟨(JobState.stopRecorded_of_next? hnext h).symm, fun hevent job e' => ?_⟩
      obtain rfl := of_decide_eq_true hevent
      exact rfl
  | queued | resting event policy tries wakeAt =>
    dsimp only
    split <;> trivial
  | backingOff run wakeAt =>
    dsimp only
    split
    · trivial
    · split <;> trivial
  | acting run program =>
    dsimp only
    split <;> trivial
  | waiting run suspension =>
    dsimp only
    split
    · trivial
    · split <;> trivial
  | starting run | succeeding run | pausing run => exact hsame _ rfl
  | choosing | leaving result | gone => trivial

/-- A worker that is asked to stop runs no program. -/
theorem idle_work (h : e.stop = true) (f : Fleet) (id : JobId) : (e.work f id).Idle := by
  unfold work
  cases e.stage with
  | moving event policy tries =>
    dsimp only
    split <;> trivial
  | queued | resting event policy tries wakeAt =>
    dsimp only
    split <;> trivial
  | acting run program | waiting run suspension | backingOff run wakeAt =>
    dsimp only
    rw [if_pos h]
    trivial
  | starting run | succeeding run | pausing run | choosing | leaving result | gone => trivial

end JobEntry

namespace Fleet

variable {f g : Fleet} {id : JobId} {e e' : JobEntry} {may : String → Prop}

/-- An entry that goes with the requests: once a stop of the job is on record, none of its requests
waits, and none will be sent. -/
structure Heeds (c : Correlator) (id : JobId) (e : JobEntry) : Prop where
  id_eq : e.job.id = id
  state : e.snapshot.state = e.job.state
  asked : e.phase = .stopRequested → e.stop = true
  winding : e.job.state.stopRecorded = true → e.stage.Winding
  clear : e.job.state.stopRecorded = true → c.Clear id

/-- Entries that go with the requests, requests that go with their deadlines, and numbers that have
been given out. -/
structure Orderly (f : Fleet) : Prop where
  aligned : f.correlator.Aligned
  callers : f.OutsideCallers
  given : ∀ id e, f.jobs.get? id = some e → id.toNat ≤ f.submitted
  heeds : ∀ id e, f.jobs.get? id = some e → Heeds f.correlator id e

/-- Requests of others do not matter to a job. -/
theorem Heeds.serves {c d : Correlator} {owner : Option JobId} (h : Heeds c id e)
    (hs : Correlator.Serves owner c d) (howner : owner ≠ some id) : Heeds d id e :=
  ⟨h.id_eq, h.state, h.asked, h.winding, fun hstate => (h.clear hstate).serves hs howner⟩

private theorem Heeds.mayBeAsked {c : Correlator} (h : Heeds c id e) (ha : e.MayBeAsked e') :
    Heeds c id e' := by
  rcases ha with rfl | ⟨-, rfl⟩
  · exact h
  · exact ⟨h.id_eq, h.state, fun _ => rfl, h.winding, h.clear⟩

/-- A new job has no stop on record. -/
theorem heeds_new (c : Correlator) {job : Job} (hid : job.id = id) (hstate : job.state = .created) :
    Heeds c id (.new job) := by
  have hnot : (JobEntry.new job).job.state.stopRecorded = false := by
    change job.state.stopRecorded = false
    rw [hstate]
    rfl
  refine ⟨hid, rfl, nofun, fun h => ?_, fun h => ?_⟩ <;> rw [hnot] at h <;> cases h

private theorem Orderly.aside (hf : f.Orderly) (h : Aside f g) : g.Orderly where
  aligned := h.requests.aligned hf.aligned
  callers := h.callers hf.callers
  given id e he := by
    rw [h.jobs] at he
    rw [h.submitted]
    exact hf.given id e he
  heeds id e he := by
    rw [h.jobs] at he
    exact (hf.heeds id e he).serves h.requests nofun

private theorem Orderly.submit (hf : f.Orderly) (target : String) (steps : List JobStep) :
    (f.submit target steps).2.Orderly := by
  rcases f.submit_cases target steps with ⟨fault, m, hsubmit, -⟩ |
    ⟨job, tx, m, agenda, hid, hstate, hsubmit, -⟩
  · rw [hsubmit]
    exact ⟨hf.aligned, hf.callers, fun id e he => Nat.le_succ_of_le (hf.given id e he), hf.heeds⟩
  · rw [hsubmit]
    refine ⟨hf.aligned, hf.callers, fun id e he => ?_, fun id e he => ?_⟩
    · dsimp only at he ⊢
      rw [Table.get?_set] at he
      split at he
      · next hnext =>
        rw [← hnext]
        exact f.toNat_nextId_le
      · exact Nat.le_succ_of_le (hf.given id e he)
    · dsimp only at he ⊢
      rw [Table.get?_set] at he
      split at he
      · next hnext =>
        cases he
        exact heeds_new _ (hid.trans hnext) hstate
      · exact hf.heeds id e he

private theorem Orderly.stop (hf : f.Orderly) (id : JobId) : (f.stop id).2.Orderly := by
  rcases f.stop_cases id with ⟨fault, m, hstop, -⟩ | ⟨e, -, -, hstop⟩ |
    ⟨e, agenda, htracked, hphase, hstop⟩
  · rw [hstop]
    exact ⟨hf.aligned, hf.callers, hf.given, hf.heeds⟩
  · rw [hstop]
    exact hf
  · have hget : f.jobs.get? id = some e := (Option.filter_eq_some_iff.1 htracked).1
    rw [hstop]
    refine ⟨hf.aligned, hf.callers, fun job e' he' => ?_, fun job e' he' => ?_⟩
    · dsimp only at he'
      rw [Table.get?_set] at he'
      split at he'
      · next hjob =>
        rw [← hjob]
        exact hf.given id e hget
      · exact hf.given job e' he'
    · dsimp only at he'
      rw [Table.get?_set] at he'
      split at he'
      · next hjob =>
        cases he'
        rw [← hjob]
        exact (hf.heeds id e hget).mayBeAsked (Or.inr ⟨hphase, rfl⟩)
      · exact hf.heeds job e' he'

private theorem Heeds.preserved {c : Correlator} (h : Heeds c id e) (ht : e.Preserved e')
    (hwinding : e.job.state.stopRecorded = true → e'.stage.Winding) : Heeds c id e' where
  id_eq := ht.id.trans h.id_eq
  state := by rw [ht.snapshot, ht.state, h.state]
  asked ha := ht.stop.trans (h.asked (ht.asked ha))
  winding hstate := hwinding (ht.state ▸ hstate)
  clear hstate := h.clear (ht.state ▸ hstate)

/-- As long as no stop is on record, the requests do not matter. -/
theorem Heeds.of_not_recorded {c : Correlator} (h : Heeds c id e)
    (hnot : e.job.state.stopRecorded = false) (d : Correlator) : Heeds d id e := by
  refine ⟨h.id_eq, h.state, h.asked, h.winding, fun hstate => ?_⟩
  rw [hnot] at hstate
  cases hstate

/-- The entry after a record of the job was taken. -/
theorem Heeds.taken (hf : Heeds f.correlator id e) {job : Job} (cancels : Bool)
    (hid : job.id = id) (ht : { e with snapshot := job, job }.Preserved e')
    (hwinding : job.state.stopRecorded = true →
      e'.stage.Winding ∧ (f.settling id cancels).Clear id) :
    Heeds (f.settling id cancels) id e' where
  id_eq := ht.id.trans hid
  state := by rw [ht.snapshot, ht.state]
  asked ha := ht.stop.trans (hf.asked (ht.asked ha))
  winding hstate := (hwinding (ht.state ▸ hstate)).1
  clear hstate := (hwinding (ht.state ▸ hstate)).2

/-- What becomes of the entry of a job in a turn of its worker. A turn of a job that was asked to
stop leaves all requests alone unless a stop is on record afterwards. -/
theorem Heeds.works (hf : Heeds f.correlator id e) (he : f.jobs.get? id = some e)
    (h : f.Works id e (e.work f id) g) :
    ∃ e', g.jobs.get? id = some e' ∧ Heeds g.correlator id e' ∧
      (e.job.state.stopRecorded = true → e'.job.state.stopRecorded = true) ∧
      (e.stop = true → e'.stop = true ∧
        (e'.job.state.stopRecorded = false → g.correlator = f.correlator)) := by
  have hpreserves := e.preserves_work f id
  have hwinds : e.job.state.stopRecorded = true → (e.work f id).Winds := fun hstate =>
    JobEntry.winds_work (hf.winding hstate) f id
  have hcalls : e.job.state.stopRecorded = false → (e.work f id).CallsOff := fun hstate =>
    JobEntry.callsOff_work hstate f id
  have hidle : e.stop = true → (e.work f id).Idle := fun hstop => JobEntry.idle_work hstop f id
  generalize e.work f id = work at h hpreserves hwinds hcalls hidle
  cases h with
  | change e' agenda permits =>
    exact ⟨e', Table.get?_set_self .., hf.preserved hpreserves hwinds,
      fun hstate => hpreserves.state ▸ hstate,
      fun hstop => ⟨hpreserves.stop.trans hstop, fun _ => rfl⟩⟩
  | @refused job cancels next fault m agenda hstore _ =>
    have hpreserved := hpreserves.2.1 fault
    exact ⟨_, Table.get?_set_self ..,
      hf.preserved hpreserved fun hstate => (hwinds hstate).2.2 _ _ _,
      fun hstate => hpreserved.state ▸ hstate,
      fun hstop => ⟨hpreserved.stop.trans hstop, fun _ => rfl⟩⟩
  | @taken job cancels next tx m agenda hstore _ =>
    have hpreserved := hpreserves.2.2
    have hid : (f.stamped job).id = id := hpreserves.1.trans hf.id_eq
    -- What was on record before decides whether this record can be the one of the stop.
    cases hstate : e.job.state.stopRecorded with
    | true =>
      obtain ⟨rfl, hjob, hnext⟩ := hwinds hstate
      refine ⟨_, Table.get?_set_self ..,
        hf.taken false hid hpreserved fun _ => ⟨hnext _ _ _, hf.clear hstate⟩,
        fun _ => hpreserved.state ▸ hjob, ?_⟩
      exact fun hstop => ⟨hpreserved.stop.trans hstop, fun _ => rfl⟩
    | false =>
      obtain ⟨hcancels, hnext⟩ := hcalls hstate
      refine ⟨_, Table.get?_set_self .., hf.taken cancels hid hpreserved fun hjob => ?_, nofun,
        fun hstop => ⟨hpreserved.stop.trans hstop, fun hnot => ?_⟩⟩
      · obtain rfl : cancels = true := hcancels.trans hjob
        exact ⟨hnext rfl _ _, f.correlator.clear_cancelOwnedBy id⟩
      · rw [hpreserved.state] at hnot
        obtain rfl : cancels = false := hcancels.trans hnot
        rfl
  | @performed run program result g e' before agenda hrun hentry =>
    have hran := ran_run id e.job.target program { f with agenda := before }
    rw [hrun] at hran
    obtain ⟨e₁, he₁, hasked⟩ := hran.entry e he
    cases hentry.symm.trans he₁
    have hnot : e.job.state.stopRecorded = false := by
      cases hstate : e.job.state.stopRecorded with
      | true => exact (hwinds hstate).elim
      | false => rfl
    have hheeds := (hf.of_not_recorded hnot g.correlator).mayBeAsked hasked
    have hstate : e'.job.state = e.job.state := by
      rcases hasked with rfl | ⟨-, rfl⟩ <;> rfl
    refine ⟨_, Table.get?_set_self ..,
      hheeds.preserved (e'.preserved_afterRun g.config run result) fun hrecorded => ?_,
      fun hrecorded => ?_, fun hstop => (hidle hstop).elim⟩
    · rw [hstate, hnot] at hrecorded
      cases hrecorded
    · rw [hnot] at hrecorded
      cases hrecorded

/-- The turn of a worker keeps the jobs and their requests in order. -/
theorem Orderly.works (hf : f.Orderly) (he : f.jobs.get? id = some e)
    (h : f.Works id e (e.work f id) g) : g.Orderly := by
  have hframe := h.workerFrame
  obtain ⟨e', he', hheeds, -⟩ := (hf.heeds id e he).works he h
  refine ⟨hframe.requests.aligned hf.aligned, outsideCallers_of_eq hframe.callers hf.callers,
    fun job e₁ he₁ => ?_, fun job e₁ he₁ => ?_⟩
  · rw [hframe.submitted]
    by_cases hjob : job = id
    · exact hjob ▸ hf.given id e he
    · exact hf.given job e₁ ((hframe.others job hjob).symm.trans he₁)
  · by_cases hjob : job = id
    · subst hjob
      cases he'.symm.trans he₁
      exact hheeds
    · have hold := hf.heeds job e₁ ((hframe.others job hjob).symm.trans he₁)
      exact hold.serves hframe.requests fun h => hjob (Option.some.inj h).symm

/-- A step keeps the jobs and their requests in order. -/
theorem Orderly.step (hf : f.Orderly) (h : Step may f g) : g.Orderly := by
  rcases h.split hf.callers with hbeside | rfl | ⟨writes, reads, -, rfl⟩ | ⟨id, rfl⟩ |
    ⟨target, steps, rfl⟩ | ⟨id, rfl⟩
  · exact hf.aside hbeside.aside
  · exact hf.aside f.aside_readerTurn
  · exact hf.aside ⟨rfl, rfl, rfl, rfl, rfl, fun h => h, .refl _ _⟩
  · cases he : f.jobs.get? id with
    | none =>
      rw [workerTurn_of_none he]
      exact hf
    | some e => exact hf.works he (workerTurn_works he (hf.heeds id e he).id_eq)
  · exact hf.submit target steps
  · exact hf.stop id

/-- At the start the jobs and their requests are in order. -/
theorem orderly_opened (config : Config) (store : UnreliableStore) (registry : Registry) :
    (opened config store registry).Orderly := by
  have hnone (id : JobId) (e : JobEntry)
      (he : (opened config store registry).jobs.get? id = some e) : False := by
    rw [get?_opened] at he
    cases he
  obtain ⟨agenda, broker, correlating, held, hopened⟩ := opened_eq config store registry
  rw [hopened] at hnone ⊢
  exact ⟨Correlator.aligned_new _ _, nofun, fun id e he => (hnone id e he).elim,
    fun id e he => (hnone id e he).elim⟩

/-- In every run the jobs and their requests are in order. -/
theorem Orderly.run (hf : f.Orderly) (h : Run may f g) : g.Orderly := by
  induction h with
  | refl => exact hf
  | tail _ hstep ih => exact ih.step hstep

/-- The job has been asked to stop. -/
def Asked (f : Fleet) (id : JobId) : Prop := ∃ e, f.jobs.get? id = some e ∧ e.stop = true

/-- What every step goes by: numbers are given out one after the other, what waited waits or is
settled, and a job stays asked to stop until its number is given out anew. -/
structure Onward (f g : Fleet) : Prop where
  submitted : f.submitted ≤ g.submitted
  outcome : ∀ key, (f.correlator.outcome? key).isSome → (g.correlator.outcome? key).isSome
  kept : ∀ key request, f.correlator.pending.get? key = some request →
    g.correlator.pending.get? key = some request ∨ (g.correlator.outcome? key).isSome
  asked : ∀ id, g.submitted < 2 ^ 64 → f.Asked id → g.Asked id

private theorem Onward.of_serves {owner : Option JobId} (hsubmitted : f.submitted ≤ g.submitted)
    (hs : Correlator.Serves owner f.correlator g.correlator)
    (hasked : ∀ id, g.submitted < 2 ^ 64 → f.Asked id → g.Asked id) : Onward f g where
  submitted := hsubmitted
  outcome key h := by
    obtain ⟨outcome, hout⟩ := Option.isSome_iff_exists.1 h
    exact Option.isSome_iff_exists.2 ⟨outcome, hs.outcome key outcome hout⟩
  kept := hs.kept
  asked := hasked

private theorem Onward.refl (f : Fleet) : Onward f f :=
  ⟨Nat.le_refl _, fun _ h => h, fun _ _ h => Or.inl h, fun _ _ h => h⟩

private theorem Onward.trans {h : Fleet} (hfg : Onward f g) (hgh : Onward g h) : Onward f h where
  submitted := Nat.le_trans hfg.submitted hgh.submitted
  outcome key hf := hgh.outcome key (hfg.outcome key hf)
  kept key request hf := by
    rcases hfg.kept key request hf with hg | hg
    · exact hgh.kept key request hg
    · exact Or.inr (hgh.outcome key hg)
  asked id hlt hf :=
    hgh.asked id hlt (hfg.asked id (Nat.lt_of_le_of_lt hgh.submitted hlt) hf)

private theorem onward_aside (h : Aside f g) : Onward f g := by
  refine .of_serves (Nat.le_of_eq h.submitted.symm) h.requests fun id _ hasked => ?_
  rwa [Asked, h.jobs]

private theorem onward_submit (hf : f.Orderly) (target : String) (steps : List JobStep) :
    Onward f (f.submit target steps).2 := by
  rcases f.submit_cases target steps with ⟨fault, m, hsubmit, -⟩ |
    ⟨job, tx, m, agenda, hid, -, hsubmit, -⟩
  · rw [hsubmit]
    exact .of_serves (Nat.le_succ _) (.refl none _) fun _ _ h => h
  · rw [hsubmit]
    refine .of_serves (Nat.le_succ _) (.refl none _) fun id hlt hasked => ?_
    obtain ⟨e, he, hstop⟩ := hasked
    have hgiven := hf.given id e he
    change f.submitted + 1 < 2 ^ 64 at hlt
    have hne := nextId_ne hgiven hlt
    exact ⟨e, (Table.get?_set_ne _ _ hne).trans he, hstop⟩

private theorem onward_stop (f : Fleet) (id : JobId) : Onward f (f.stop id).2 := by
  have hran := f.ran_stop id
  refine .of_serves (Nat.le_of_eq hran.submitted.symm) hran.requests fun job _ hasked => ?_
  obtain ⟨e, he, hstop⟩ := hasked
  by_cases hjob : job = id
  · subst hjob
    obtain ⟨e', he', hmay⟩ := hran.entry e he
    refine ⟨e', he', ?_⟩
    rcases hmay with rfl | ⟨-, rfl⟩
    · exact hstop
    · rfl
  · exact ⟨e, (hran.others job hjob).trans he, hstop⟩

/-- In the turn of a worker numbers and requests go on, and a job stays asked to stop. -/
theorem onward_works (hf : f.Orderly) (he : f.jobs.get? id = some e)
    (h : f.Works id e (e.work f id) g) : Onward f g := by
  have hframe := h.workerFrame
  obtain ⟨e', he', -, -, hkeeps⟩ := (hf.heeds id e he).works he h
  refine .of_serves (Nat.le_of_eq hframe.submitted.symm) hframe.requests fun job _ hasked => ?_
  obtain ⟨e₁, he₁, hstop⟩ := hasked
  by_cases hjob : job = id
  · subst hjob
    cases he.symm.trans he₁
    exact ⟨e', he', (hkeeps hstop).1⟩
  · exact ⟨e₁, (hframe.others job hjob).trans he₁, hstop⟩

/-- In a step numbers and requests go on, and a job stays asked to stop. -/
theorem Step.onward (h : Step may f g) (hf : f.Orderly) : Onward f g := by
  rcases h.split hf.callers with hbeside | rfl | ⟨writes, reads, -, rfl⟩ | ⟨id, rfl⟩ |
    ⟨target, steps, rfl⟩ | ⟨id, rfl⟩
  · exact onward_aside hbeside.aside
  · exact onward_aside f.aside_readerTurn
  · exact onward_aside ⟨rfl, rfl, rfl, rfl, rfl, fun h => h, .refl _ _⟩
  · cases he : f.jobs.get? id with
    | none =>
      rw [workerTurn_of_none he]
      exact .refl f
    | some e => exact onward_works hf he (workerTurn_works he (hf.heeds id e he).id_eq)
  · exact onward_submit hf target steps
  · exact f.onward_stop id

/-- In a run numbers and requests go on, and a job stays asked to stop. -/
theorem onward_run (hf : f.Orderly) (h : Run may f g) : Onward f g := by
  induction h with
  | refl => exact .refl f
  | tail hrun hstep ih => exact ih.trans (hstep.onward (hf.run hrun))

/-- Who is told that a stop was accepted has asked the job to stop. -/
theorem asked_of_stop (hf : f.Orderly) (h : (f.stop id).1 = .ok ()) : (f.stop id).2.Asked id := by
  obtain ⟨e, he, hphase⟩ := phase_of_stop h
  exact ⟨e, he, ((hf.stop id).heeds id e he).asked hphase⟩

/-- No request of the job waits, every deadline is one of somebody else's, and what waited of the
job in `f` is settled. -/
structure CalledOff (id : JobId) (f g : Fleet) : Prop where
  clear : g.correlator.Clear id
  deadlines : ∀ key, (g.correlator.supervisor.queue.deadline? key).isSome →
    ∃ request, g.correlator.pending.get? key = some request ∧ request.owner ≠ some id
  settled : ∀ key request, f.correlator.pending.get? key = some request →
    request.owner = some id → (g.correlator.outcome? key).isSome

/-- Once no request of a job waits, all that waited are settled. -/
theorem Orderly.calledOff (hf : f.Orderly) (h : Run may f g) (hclear : g.correlator.Clear id) :
    CalledOff id f g where
  clear := hclear
  deadlines key hkey := by
    rw [(hf.run h).aligned.same, Table.contains_eq_true_iff] at hkey
    obtain ⟨request, hrequest⟩ := hkey
    exact ⟨request, hrequest, hclear key request hrequest⟩
  settled key request hrequest howner := by
    rcases (onward_run hf h).kept key request hrequest with hpending | hsettled
    · exact (hclear key request hpending howner).elim
    · exact hsettled

/-- A step of a fleet in which only the worker of one job does anything. -/
inductive Alone (id : JobId) (f : Fleet) : Fleet → Prop
  | turn : Alone id f (f.workerTurn id).fleet
  | reschedule (agenda : Agenda) : Alone id f { f with agenda }
  | pass (time : Nat) : Alone id f { f with now := time }
  | disturb (outages : List Outage) : Alone id f { f with
      transactions := { f.transactions with store := { f.transactions.store with outages } } }

private theorem Alone.step (h : Alone id f g) : Step may f g := by
  cases h with
  | turn => exact .turn (.worker id)
  | reschedule agenda => exact .reschedule agenda
  | pass time => exact .pass time
  | disturb outages => exact .disturb outages

private theorem run_of_alone (h : Relation.ReflTransGen (Alone id) f g) : Run may f g :=
  Relation.ReflTransGen.mono (fun _ _ hstep => Alone.step hstep) _ _ h

/-- As long as no stop is on record, the worker of a job that was asked to stop leaves all requests
alone. -/
theorem unchanged_of_alone (hf : f.Orderly) (hasked : f.Asked id)
    (h : Relation.ReflTransGen (Alone id) f g) :
    ∃ e, g.jobs.get? id = some e ∧ e.stop = true ∧
      (e.job.state.stopRecorded = false → g.correlator = f.correlator) := by
  induction h with
  | refl =>
    obtain ⟨e, he, hstop⟩ := hasked
    exact ⟨e, he, hstop, fun _ => rfl⟩
  | @tail g h hrun hstep ih =>
    obtain ⟨e, he, hstop, hsame⟩ := ih
    cases hstep with
    | turn =>
      have hrun' : Run (fun _ => True) f g := run_of_alone hrun
      have hheeds := (hf.run hrun').heeds id e he
      obtain ⟨e', he', -, hrecorded, hkeeps⟩ := hheeds.works he (workerTurn_works he hheeds.id_eq)
      obtain ⟨hstop', hcorrelator⟩ := hkeeps hstop
      refine ⟨e', he', hstop', fun hnot => (hcorrelator hnot).trans (hsame ?_)⟩
      cases hstate : e.job.state.stopRecorded with
      | false => rfl
      | true => exact (hrecorded hstate).symm.trans hnot
    | reschedule | pass | disturb => exact ⟨e, he, hstop, hsame⟩

/-- Once a stop was accepted, the job is one that was asked to stop. When a stop is on record, its
requests are called off, whatever else happens and whatever becomes of the record of its end. Left
to its worker alone, its requests are called off exactly if a stop is on record, unless none of them
waited. -/
theorem stop_settles_iff {config : Config} {store : UnreliableStore} {registry : Registry}
    (hrun : Run may (opened config store registry) f) (hstop : (f.stop id).1 = .ok ())
    (hthen : Run may (f.stop id).2 g) :
    (g.submitted < 2 ^ 64 → g.Asked id) ∧
    (∀ h e, Run may g h → h.jobs.get? id = some e → e.snapshot.state.stopRecorded = true →
      CalledOff id g h) ∧
    (g.Asked id → ∀ h, Relation.ReflTransGen (Alone id) g h → ∃ e, h.jobs.get? id = some e ∧
      (CalledOff id g h ↔
        e.snapshot.state.stopRecorded = true ∨ g.correlator.Clear id)) := by
  have hf : f.Orderly := (orderly_opened config store registry).run hrun
  have hg : g.Orderly := (hf.stop id).run hthen
  refine ⟨fun hlt => ?_, fun h e hrun' he hrecorded => ?_, fun hasked h halone => ?_⟩
  · exact (onward_run (hf.stop id) hthen).asked id hlt (asked_of_stop hf hstop)
  · have hheeds := (hg.run hrun').heeds id e he
    exact hg.calledOff hrun' (hheeds.clear (hheeds.state ▸ hrecorded))
  · have hrun' : Run may g h := run_of_alone halone
    obtain ⟨e, he, -, hsame⟩ := unchanged_of_alone hg hasked halone
    have hheeds := (hg.run hrun').heeds id e he
    refine ⟨e, he, ?_⟩
    rw [hheeds.state]
    cases hstate : e.job.state.stopRecorded with
    | true => exact ⟨fun _ => Or.inl rfl, fun _ => hg.calledOff hrun' (hheeds.clear hstate)⟩
    | false =>
      have hcorrelator := hsame hstate
      constructor
      · intro hcalled
        exact Or.inr (hcorrelator ▸ hcalled.clear)
      · rintro (hrecorded | hclear)
        · cases hrecorded
        · exact hg.calledOff hrun' (hcorrelator ▸ hclear)

/-- A step that asks its device for its status. -/
def asking : StepDefinition where
  key := "ask"
  properties := []
  behaviour _ := do
    match ← Stepping.request "status" [] 60000 with
    | .ok _ => pure (.ok ())
    | .error fault => pure (.error fault)

/-- A fleet in which no move of a job is tried twice, at its start. -/
def openedOnce : Fleet :=
  opened { Config.standard with defaultRetry := .once } (.new [])
    ⟨Table.ofList [("ask", asking)]⟩

/-- That fleet with a job that waits for its device. -/
def askingFleet : Fleet :=
  (openedOnce.submit "edge-1" [.new "ask"]).2.turns (List.replicate 5 (.worker 1))

/-- A job comes to wait for its device. -/
theorem run_askingFleet : Run (fun _ => True) openedOnce askingFleet :=
  .head (.submit "edge-1" [.new "ask"]) (run_turns _ _)

/-- That fleet after the job was asked to stop and its worker has left. -/
def stoppedFleet : Fleet := (askingFleet.stop 1).2.turns (List.replicate 5 (.worker 1))

/-- The request of the job was called off. -/
theorem stop_settles_iff_stoppedFleet :
    (∃ e, stoppedFleet.jobs.get? 1 = some e ∧ e.done = true ∧ e.snapshot.state = .stopped) ∧
      CalledOff 1 (askingFleet.stop 1).2 stoppedFleet := by
  obtain ⟨-, hsettles, -⟩ :=
    @stop_settles_iff askingFleet (askingFleet.stop 1).2 1 _ _ _ _ run_askingFleet rfl .refl
  have hentry : ∃ e, stoppedFleet.jobs.get? 1 = some e ∧ e.done = true ∧
      e.snapshot.state = .stopped := ⟨_, rfl, rfl, rfl⟩
  obtain ⟨e, he, hdone, hstate⟩ := hentry
  exact ⟨⟨e, he, hdone, hstate⟩, hsettles stoppedFleet e (run_turns _ _) he (hstate ▸ rfl)⟩

/-- The same, with a store that refuses every record from the stop on. -/
def forsakenFleet : Fleet :=
  let outage : Outage := ⟨.commit, none, none, none, none, .commitFailure "disk full"⟩
  let f := (askingFleet.stop 1).2
  { f with transactions := { f.transactions with
      store := { f.transactions.store with outages := [outage] } } }.turns
    (List.replicate 5 (.worker 1))

/-- A stop was accepted and the worker has left, and the request of the job still waits. -/
theorem forsakenFleet_waits :
    Run (fun _ => True) openedOnce askingFleet ∧ (askingFleet.stop 1).1 = .ok () ∧
      Run (fun _ => True) (askingFleet.stop 1).2 forsakenFleet ∧
      (∃ e, forsakenFleet.jobs.get? 1 = some e ∧ e.done = true ∧ e.stop = true) ∧
      ¬forsakenFleet.correlator.Clear 1 := by
  refine ⟨run_askingFleet, rfl, .head (.disturb _) (run_turns _ _), ⟨_, rfl, rfl, rfl⟩, ?_⟩
  intro hclear
  have hwaits : ∃ request, forsakenFleet.correlator.pending.get? 1 = some request ∧
      request.owner = some 1 := ⟨_, rfl, rfl⟩
  obtain ⟨request, hrequest, howner⟩ := hwaits
  exact hclear 1 request hrequest howner

end Fleet

end Flotilla
