import Flotilla.Proofs.Fleet.Decisions
import Flotilla.Proofs.Fleet.Notices
import Flotilla.Proofs.Fleet.Steps
import Mathlib.Data.List.Forall2

/-!
# What is published is what is recorded

Observers see a job's snapshot and its notices; the store has its record. In every run in which
nobody but the fleet writes job records, the snapshot of a job that was submitted is what its record
says, and the notices are, one for one and in order, those of the records that the store took
(`Fleet.published_run`). A step either leaves all of this alone or makes one record of one job
public (`Fleet.Step.publishes`), so a record that the store refuses shows nowhere.
-/

namespace Flotilla

/-- What becomes of an entry when nothing is published. -/
structure JobEntry.Holds (e e' : JobEntry) : Prop where
  snapshot : e'.snapshot = e.snapshot
  id : e'.job.id = e.job.id
  stage : e.stage.Spares → e'.stage.Spares

private theorem JobEntry.Holds.refl (e : JobEntry) : e.Holds e := ⟨rfl, rfl, fun h => h⟩

private theorem JobEntry.MayBeAsked.holds {e e' : JobEntry} (h : e.MayBeAsked e') : e.Holds e' := by
  rcases h with rfl | ⟨-, rfl⟩
  · exact .refl e'
  · exact ⟨rfl, rfl, id⟩

namespace Fleet

variable {f g : Fleet} {s₀ : Store} {job : Job} {id : JobId}

/-- What is needed for the records of jobs to be the fleet's own: the steps spare them, and every
worker has the job that it is the worker of. -/
structure Fit (f : Fleet) : Prop where
  registry : f.registry.Spares
  callers : f.OutsideCallers
  ids : ∀ id e, f.jobs.get? id = some e → e.job.id = id
  stages : ∀ id e, f.jobs.get? id = some e → e.stage.Spares

/-- Nothing is published. -/
structure Quiet (f g : Fleet) : Prop where
  registry : g.registry = f.registry
  callers : f.OutsideCallers → g.OutsideCallers
  silent : Silent f g
  entries : ∀ id, Option.Rel JobEntry.Holds (f.jobs.get? id) (g.jobs.get? id)

/-- A record of a job is published. -/
structure Publishes (f g : Fleet) (job : Job) : Prop where
  registry : g.registry = f.registry
  callers : f.OutsideCallers → g.OutsideCallers
  takes : Takes f g job
  entry : ∃ e, g.jobs.get? job.id = some e ∧ e.snapshot = job ∧ e.job.id = job.id ∧ e.stage.Spares
  others : ∀ id, id ≠ job.id → g.jobs.get? id = f.jobs.get? id

/-- An entry that nothing happens to holds. -/
theorem rel_holds_refl (e : Option JobEntry) : Option.Rel JobEntry.Holds e e := by
  cases e with
  | none => exact .none
  | some e => exact .some (.refl e)

private theorem quiet_of_jobs_eq (hregistry : g.registry = f.registry)
    (hcallers : f.OutsideCallers → g.OutsideCallers) (hsilent : Silent f g)
    (hjobs : g.jobs = f.jobs) : Quiet f g :=
  ⟨hregistry, hcallers, hsilent, fun _ => hjobs ▸ rel_holds_refl _⟩

/-- What touches no job publishes nothing. -/
theorem Beside.quiet (h : Beside f g) : Quiet f g :=
  quiet_of_jobs_eq h.aside.registry h.aside.callers h.apart.silent h.aside.jobs

/-- Asking for a stop publishes nothing. -/
theorem quiet_stop (f : Fleet) (id : JobId) : Quiet f (f.stop id).2 := by
  have hran := f.ran_stop id
  refine ⟨hran.registry, outsideCallers_of_eq hran.callers, (f.apart_stop id).silent, fun job => ?_⟩
  by_cases hjob : job = id
  · subst hjob
    cases he : f.jobs.get? job with
    | some e =>
      obtain ⟨e', he', hasked⟩ := hran.entry e he
      rw [he']
      exact .some hasked.holds
    | none =>
      have hnone : (f.stop job).2.jobs.get? job = none := by
        rcases f.stop_cases job with ⟨fault, m, hstop, -⟩ | ⟨e, htracked, -⟩ | ⟨e, _, htracked, -⟩
        · rw [hstop]
          exact he
        · rw [tracked?, he] at htracked
          cases htracked
        · rw [tracked?, he] at htracked
          cases htracked
      rw [hnone]
      exact .none
  · rw [hran.others job hjob]
    exact rel_holds_refl _

/-- Writing something else than job records publishes nothing. -/
theorem quiet_writeBehind (f : Fleet) {writes : List Write} (reads : Table String (Option Nat))
    (h : WritesSpare writes) : Quiet f (f.writeBehind writes reads).2 := by
  have hapart : Apart f (f.writeBehind writes reads).2 :=
    ⟨⟨[], (List.append_nil _).symm, nofun⟩, rfl, fun key hkey =>
      f.transactions.store.commitBehind_of_ne reads (h.key_ne hkey)⟩
  exact quiet_of_jobs_eq rfl id hapart.silent rfl

private theorem publishes_recorded {tx : Nat} {e : JobEntry} (hregistry : g.registry = f.registry)
    (hcallers : g.callers = f.callers)
    (hchronicle : g.chronicle = (f.recorded tx job).chronicle)
    (hunread : g.unread = (f.recorded tx job).unread)
    (hstore : g.transactions.store.store = f.transactions.store.store.apply (recordOf job))
    (hget : ∀ id, g.jobs.get? id = if job.id = id then some e else f.jobs.get? id)
    (hsnapshot : e.snapshot = job) (hid : e.job.id = job.id) (hstage : e.stage.Spares) :
    Publishes f g job where
  registry := hregistry
  callers := outsideCallers_of_eq hcallers
  takes := by
    refine ⟨⟨tx, ?_⟩, hunread, hstore⟩
    rw [hchronicle]
    exact List.append_assoc _ _ _
  entry := ⟨e, (hget job.id).trans (if_pos rfl), hsnapshot, hid, hstage⟩
  others id hne := (hget id).trans (if_neg (Ne.symm hne))

/-- Submitting a job publishes its first record or nothing. -/
theorem publishes_submit (f : Fleet) (target : String) (steps : List JobStep) :
    Quiet f (f.submit target steps).2 ∨ ∃ job, Publishes f (f.submit target steps).2 job := by
  rcases f.submit_cases target steps with ⟨fault, m, hsubmit, hm⟩ |
    ⟨job, tx, m, agenda, hid, -, hsubmit, hm⟩
  · left
    rw [hsubmit]
    have hapart : Apart f { f with submitted := f.submitted + 1, transactions := m } :=
      .of_eq hm rfl rfl
    exact quiet_of_jobs_eq rfl (fun h => h) hapart.silent rfl
  · right
    rw [hsubmit, ← hid]
    exact ⟨job, @publishes_recorded f _ job tx (.new job) rfl rfl rfl rfl hm
      (fun id => Table.get?_set _ _ _ _) rfl rfl trivial⟩

private theorem rel_holds_workerFrame {e e' : JobEntry} (h : WorkerFrame id f g)
    (he : f.jobs.get? id = some e)
    (he' : g.jobs.get? id = some e') (hholds : e.Holds e') (job : JobId) :
    Option.Rel JobEntry.Holds (f.jobs.get? job) (g.jobs.get? job) := by
  by_cases hjob : job = id
  · rw [hjob, he, he']
    exact .some hholds
  · rw [h.others job hjob]
    exact rel_holds_refl _

/-- A turn of a worker publishes one record of its job or nothing. -/
theorem publishes_works {e : JobEntry} (hf : f.Fit) (he : f.jobs.get? id = some e)
    (h : f.Works id e (e.work f id) g) : Quiet f g ∨ ∃ job, Publishes f g job := by
  have hid := hf.ids id e he
  have hframe := h.workerFrame
  have hcallers := outsideCallers_of_eq hframe.callers
  have hpreserves := e.preserves_work f id
  have hspares := e.spares_work f id (hf.stages id e he) hf.registry
  generalize e.work f id = work at h hpreserves hspares
  cases h with
  | change e' agenda permits =>
    have hapart : Apart f { f with agenda, permits, jobs := f.jobs.set id e' } := .of_eq rfl rfl rfl
    have hholds : e.Holds e' := ⟨hpreserves.snapshot, hpreserves.id, fun _ => hspares⟩
    exact Or.inl ⟨hframe.registry, hcallers, hapart.silent,
      rel_holds_workerFrame hframe he (Table.get?_set_self ..) hholds⟩
  | @refused job cancels next fault m agenda hstore _ =>
    have hpreserved := hpreserves.2.1 fault
    have hapart : Apart f { f with
        agenda
        transactions := m
        jobs := f.jobs.set id (next (.error fault) (f.stamped job) e) } :=
      .of_eq hstore rfl rfl
    have hholds : e.Holds (next (.error fault) (f.stamped job) e) :=
      ⟨hpreserved.snapshot, hpreserved.id, fun _ => hspares _ _ _⟩
    exact Or.inl ⟨hframe.registry, hcallers, hapart.silent,
      rel_holds_workerFrame hframe he (Table.get?_set_self ..) hholds⟩
  | @taken job cancels next tx m agenda hstore _ =>
    have hjob : (f.stamped job).id = id := hpreserves.1.trans hid
    have hpreserved := hpreserves.2.2
    refine Or.inr ⟨f.stamped job, @publishes_recorded f _ (f.stamped job) tx
      (next (.ok ()) (f.stamped job) { e with snapshot := f.stamped job }) rfl rfl rfl rfl hstore ?_
      hpreserved.snapshot hpreserved.id (hspares _ _ _)⟩
    intro x
    rw [hjob]
    exact Table.get?_set _ _ _ _
  | @performed run program result g e' before agenda hrun hentry =>
    have hran := ran_run id e.job.target program { f with agenda := before }
    obtain ⟨hapart, hafter⟩ := apart_run id e.job.target hspares.2 { f with agenda := before }
    rw [hrun] at hran hapart hafter
    have hbefore : Apart f { f with agenda := before } := .of_eq rfl rfl rfl
    have hlast : Apart g
        { g with agenda, jobs := g.jobs.set id (e'.afterRun g.config run result) } :=
      .of_eq rfl rfl rfl
    obtain ⟨e₁, he₁, hasked⟩ := hran.entry e he
    cases hentry.symm.trans he₁
    have hpreserved := e'.preserved_afterRun g.config run result
    have hstage := e'.spares_afterRun g.config hspares.1 hafter
    have hholds : e.Holds (e'.afterRun g.config run result) :=
      ⟨hpreserved.snapshot.trans hasked.holds.snapshot, hpreserved.id.trans hasked.holds.id,
        fun _ => hstage⟩
    exact Or.inl ⟨hframe.registry, hcallers, ((hbefore.trans hapart).trans hlast).silent,
      rel_holds_workerFrame hframe he (Table.get?_set_self ..) hholds⟩

/-- The turn of a worker publishes nothing, or one record. -/
theorem publishes_workerTurn (hf : f.Fit) (id : JobId) :
    Quiet f (f.workerTurn id).fleet ∨ ∃ job, Publishes f (f.workerTurn id).fleet job := by
  cases he : f.jobs.get? id with
  | none =>
    rw [workerTurn_of_none he]
    exact Or.inl (Beside.refl f).quiet
  | some e => exact publishes_works hf he (workerTurn_works he (hf.ids id e he))

/-- A step publishes one record of one job or nothing. -/
theorem Step.publishes (h : Step (fun key => ¬IsJobKey key) f g) (hf : f.Fit) :
    Quiet f g ∨ ∃ job, Publishes f g job := by
  rcases h.split hf.callers with hbeside | rfl | ⟨writes, reads, hwrites, rfl⟩ | ⟨id, rfl⟩ |
    ⟨target, steps, rfl⟩ | ⟨id, rfl⟩
  · exact Or.inl hbeside.quiet
  · have haside := f.aside_readerTurn
    exact Or.inl (quiet_of_jobs_eq haside.registry haside.callers f.silent_readerTurn haside.jobs)
  · exact Or.inl (f.quiet_writeBehind reads hwrites)
  · exact publishes_workerTurn hf id
  · exact f.publishes_submit target steps
  · exact Or.inl (f.quiet_stop id)

/-- The record of a job is the last one that the store took since it held `s₀`, its version counts
them, and there is one notice for each. -/
structure Told (s₀ : Store) (f : Fleet) (id : JobId) : Prop where
  read : f.transactions.store.store.read (Job.key id) =
    ((f.commitsOf id).getLast?.map fun value =>
      ⟨value, s₀.lastVersion (Job.key id) + (f.commitsOf id).length⟩).or (s₀.read (Job.key id))
  lastVersion : f.transactions.store.store.lastVersion (Job.key id) =
    s₀.lastVersion (Job.key id) + (f.commitsOf id).length
  notices : List.Forall₂ (Tells id) (f.commitsOf id) (f.noticesOf id)

private theorem Told.silent (hf : Told s₀ f id) (h : Silent f g) : Told s₀ g id := by
  obtain ⟨hread, hversion⟩ := h.records id
  have hnotices : g.noticesOf id = f.noticesOf id := by rw [noticesOf, h.sent]; rfl
  refine ⟨?_, ?_, ?_⟩
  · rw [hread, h.commits]
    exact hf.read
  · rw [hversion, h.commits]
    exact hf.lastVersion
  · rw [h.commits, hnotices]
    exact hf.notices

private theorem Told.takes (hf : Told s₀ f id) (h : Takes f g job) : Told s₀ g id := by
  have hread := h.read id
  have hversion := h.lastVersion id
  have hcommits := h.commits id
  have hnotices := h.noticesOf id
  by_cases hid : job.id = id
  · rw [if_pos hid] at hread hversion hcommits hnotices
    refine ⟨?_, ?_, ?_⟩
    · rw [hread, hcommits, hf.lastVersion, List.getLast?_concat, List.length_append, Nat.add_assoc]
      rfl
    · rw [hversion, hcommits, hf.lastVersion, List.length_append, Nat.add_assoc]
      rfl
    · rw [hcommits, hnotices]
      exact List.rel_append hf.notices
        (.cons ⟨job, hid, records_toBytes job, rfl⟩ .nil)
  · rw [if_neg hid] at hread hversion hcommits hnotices
    rw [List.append_nil] at hcommits hnotices
    refine ⟨?_, ?_, ?_⟩
    · rw [hread, hcommits]
      exact hf.read
    · rw [hversion, hcommits]
      exact hf.lastVersion
    · rw [hcommits, hnotices]
      exact hf.notices

/-- What observers see of the jobs is what the store took. -/
structure Published (s₀ : Store) (f : Fleet) : Prop where
  fit : f.Fit
  told : ∀ id, Told s₀ f id
  snapshot : ∀ id e, f.jobs.get? id = some e →
    e.snapshot.id = id ∧ (f.commitsOf id).getLast? = some e.snapshot.toRecord.toBytes

private theorem Quiet.entry_of_get? (h : Quiet f g) {e' : JobEntry} (he' :
    g.jobs.get? id = some e') :
    ∃ e, f.jobs.get? id = some e ∧ e.Holds e' := by
  have hrel := h.entries id
  rw [he'] at hrel
  cases he : f.jobs.get? id with
  | none => rw [he] at hrel; cases hrel
  | some e =>
    rw [he] at hrel
    cases hrel with
    | some hholds => exact ⟨e, rfl, hholds⟩

/-- Where nothing is published, observers still see what the store took. -/
theorem Quiet.published (h : Quiet f g) (hf : Published s₀ f) : Published s₀ g where
  fit := by
    refine ⟨h.registry ▸ hf.fit.registry, h.callers hf.fit.callers, fun id e' he' => ?_,
      fun id e' he' => ?_⟩
    · obtain ⟨e, he, hholds⟩ := h.entry_of_get? he'
      exact hholds.id.trans (hf.fit.ids id e he)
    · obtain ⟨e, he, hholds⟩ := h.entry_of_get? he'
      exact hholds.stage (hf.fit.stages id e he)
  told id := (hf.told id).silent h.silent
  snapshot id e' he' := by
    obtain ⟨e, he, hholds⟩ := h.entry_of_get? he'
    rw [hholds.snapshot, h.silent.commits]
    exact hf.snapshot id e he

/-- When a record is published, observers see what the store took. -/
theorem Publishes.published (h : Publishes f g job) (hf : Published s₀ f) : Published s₀ g := by
  obtain ⟨e₁, he₁, hsnapshot, hid, hstage⟩ := h.entry
  have hentry (id : JobId) (e : JobEntry) (he : g.jobs.get? id = some e) :
      (job.id = id ∧ e = e₁) ∨ (job.id ≠ id ∧ f.jobs.get? id = some e) := by
    by_cases hjob : job.id = id
    · subst hjob
      exact Or.inl ⟨rfl, Option.some.inj (he.symm.trans he₁)⟩
    · exact Or.inr ⟨hjob, (h.others id (Ne.symm hjob)).symm.trans he⟩
  refine ⟨⟨h.registry ▸ hf.fit.registry, h.callers hf.fit.callers, fun id e he => ?_,
    fun id e he => ?_⟩, fun id => (hf.told id).takes h.takes, fun id e he => ?_⟩
  · rcases hentry id e he with ⟨rfl, rfl⟩ | ⟨-, he⟩
    · exact hid
    · exact hf.fit.ids id e he
  · rcases hentry id e he with ⟨rfl, rfl⟩ | ⟨-, he⟩
    · exact hstage
    · exact hf.fit.stages id e he
  · have hcommits := h.takes.commits id
    rcases hentry id e he with ⟨rfl, rfl⟩ | ⟨hjob, he⟩
    · rw [if_pos rfl] at hcommits
      rw [hcommits, List.getLast?_concat, hsnapshot]
      exact ⟨rfl, rfl⟩
    · rw [if_neg hjob, List.append_nil] at hcommits
      rw [hcommits]
      exact hf.snapshot id e he

/-- A step from one published state leads to another. -/
theorem Published.step (hf : Published s₀ f) (h : Step (fun key => ¬IsJobKey key) f g) :
    Published s₀ g := by
  rcases h.publishes hf.fit with hquiet | ⟨job, hpublishes⟩
  · exact hquiet.published hf
  · exact hpublishes.published hf

/-- At the start there is nothing for observers to see. -/
theorem published_opened (config : Config) (store : UnreliableStore) {registry : Registry}
    (h : registry.Spares) : Published store.store (opened config store registry) := by
  have hnone (id : JobId) (e : JobEntry)
      (he : (opened config store registry).jobs.get? id = some e) : False := by
    rw [get?_opened] at he
    cases he
  obtain ⟨agenda, broker, correlating, held, hopened⟩ := opened_eq config store registry
  rw [hopened] at hnone ⊢
  exact
    { fit := ⟨h, nofun, fun id e he => (hnone id e he).elim, fun id e he => (hnone id e he).elim⟩
      told := fun id => ⟨(Option.none_or ..).symm, rfl, .nil⟩
      snapshot := fun id e he => (hnone id e he).elim }

/-- In every run, what observers see of the jobs is what the store took. -/
theorem published_of_run {config : Config} {store : UnreliableStore} {registry : Registry}
    (hregistry : registry.Spares)
    (h : Run (fun key => ¬IsJobKey key) (opened config store registry) f) :
    Published store.store f := by
  induction h with
  | refl => exact published_opened config store hregistry
  | tail _ hstep ih => exact ih.step hstep

/-- What is public of a job is as it was. -/
structure Unmoved (id : JobId) (f g : Fleet) : Prop where
  snapshot : (g.jobs.get? id).map JobEntry.snapshot = (f.jobs.get? id).map JobEntry.snapshot
  notices : g.noticesOf id = f.noticesOf id
  record : g.transactions.store.store.read (Job.key id) =
    f.transactions.store.store.read (Job.key id)

/-- Where nothing is published, no job is moved. -/
theorem Quiet.unmoved (h : Quiet f g) (id : JobId) : Unmoved id f g := by
  refine ⟨?_, by rw [noticesOf, h.silent.sent]; rfl, (h.silent.records id).1⟩
  have hrel := h.entries id
  generalize f.jobs.get? id = e at hrel
  generalize g.jobs.get? id = e' at hrel
  cases hrel with
  | none => rfl
  | some hholds => exact congrArg some hholds.snapshot

/-- A record of one job does not move another. -/
theorem Publishes.unmoved (h : Publishes f g job) (hid : job.id ≠ id) : Unmoved id f g := by
  have hnotices := h.takes.noticesOf id
  have hread := h.takes.read id
  rw [if_neg hid] at hnotices hread
  exact ⟨by rw [h.others id (Ne.symm hid)], hnotices.trans (List.append_nil _), hread⟩

/-- A step in which no record of a job is taken moves nothing that is public of it. -/
theorem Step.unmoved (h : Step (fun key => ¬IsJobKey key) f g) (hf : f.Fit)
    (hcommits : g.commitsOf id = f.commitsOf id) : Unmoved id f g := by
  rcases h.publishes hf with hquiet | ⟨job, hpublishes⟩
  · exact hquiet.unmoved id
  · refine hpublishes.unmoved fun hid => ?_
    have htaken := hpublishes.takes.commits id
    rw [if_pos hid, hcommits] at htaken
    have hlength := congrArg List.length htaken
    rw [List.length_append, List.length_singleton] at hlength
    omega

/-- A record that the store refuses shows nowhere. -/
theorem persist_refused {fault : Fault} (h : (f.persist job).1 = .error fault) :
    (f.persist job).2.2.jobs = f.jobs ∧ (f.persist job).2.2.chronicle = f.chronicle ∧
      (f.persist job).2.2.unread = f.unread ∧
      (f.persist job).2.2.transactions.store.store = f.transactions.store.store := by
  rcases f.persist_cases job with ⟨fault', m, hpersist, hm⟩ | ⟨tx, m, hpersist, -⟩
  · rw [hpersist]
    exact ⟨rfl, rfl, rfl, hm⟩
  · rw [hpersist] at h
    cases h

/-- At every point of every run, the snapshot of each job is what its record says, and there is one
notice for each record of a job that the store took, in the same order. A step in which the store
takes no record of a job moves neither its snapshot nor its notices nor its record, and a record
that the store refuses leaves no trace. -/
theorem published_run {config : Config} {store : UnreliableStore} {registry : Registry}
    (hregistry : registry.Spares)
    (h : Run (fun key => ¬IsJobKey key) (opened config store registry) f) :
    (∀ id e, f.jobs.get? id = some e → e.snapshot.id = id ∧
      ∃ record, f.transactions.store.store.read (Job.key id) = some record ∧
        Records record.value e.snapshot) ∧
    (∀ id, Told store.store f id) ∧
    (∀ g id, Step (fun key => ¬IsJobKey key) f g → g.commitsOf id = f.commitsOf id →
      Unmoved id f g) ∧
    ∀ job fault, (f.persist job).1 = .error fault →
      (f.persist job).2.2.jobs = f.jobs ∧ (f.persist job).2.2.chronicle = f.chronicle ∧
        (f.persist job).2.2.unread = f.unread ∧
        (f.persist job).2.2.transactions.store.store = f.transactions.store.store := by
  have hf := published_of_run hregistry h
  refine ⟨fun id e he => ?_, hf.told, fun g id hstep => hstep.unmoved hf.fit,
    fun job fault => persist_refused⟩
  obtain ⟨hid, hlast⟩ := hf.snapshot id e he
  have hread := (hf.told id).read
  rw [hlast, Option.map_some, Option.some_or] at hread
  exact ⟨hid, _, hread, records_toBytes e.snapshot⟩

/-- A step that writes a key of its own. -/
def counting : StepDefinition where
  key := "count"
  properties := []
  behaviour _ := .ask (.storing (.store (.commit ((Tx.new 1 0).put "count" [1])))) fun _ =>
    .done (.ok ())

/-- A step that counts does not write job records. -/
theorem spares_counting : counting.Spares := by
  refine fun _ => ⟨?_, fun _ _ => trivial⟩
  intro w hw
  obtain rfl := List.mem_singleton.1 hw
  decide

/-- A fleet in which a job is about to record its first success. -/
def countingFleet : Fleet :=
  (((opened .standard (.new []) ⟨Table.ofList [("count", counting)]⟩).submit "edge-1"
    [.new "count"]).2).turns (List.replicate 5 (.worker 1))

/-- That fleet after its store has refused the record. -/
def countedFleet : Fleet :=
  let outage : Outage := ⟨.commit, none, none, some "job/", none, .commitFailure "disk full"⟩
  { countingFleet with
    transactions := { countingFleet.transactions with
      store := { countingFleet.transactions.store with outages := [outage] } } }.turns [.worker 1]

private theorem run_countedFleet : Run (fun key => ¬IsJobKey key)
    (opened .standard (.new []) ⟨Table.ofList [("count", counting)]⟩) countedFleet := by
  have hsubmit : Run (fun key => ¬IsJobKey key) _ countingFleet :=
    .head (.submit "edge-1" [.new "count"]) (run_turns _ _)
  exact (hsubmit.tail (.disturb _)).trans (run_turns _ _)

/-- The attempt was recorded and its success was not: the snapshot has it under way, as the third
record of the job says, and three notices were sent. -/
theorem published_run_countedFleet :
    ∃ e, countedFleet.jobs.get? 1 = some e ∧ e.snapshot.steps.map (·.status) = [.running] ∧
      (∃ record, countedFleet.transactions.store.store.read (Job.key 1) = some record ∧
        Records record.value e.snapshot) ∧
      (countedFleet.noticesOf 1).length = 3 ∧
      List.Forall₂ (Tells 1) (countedFleet.commitsOf 1) (countedFleet.noticesOf 1) := by
  have hregistry : Registry.Spares ⟨Table.ofList [("count", counting)]⟩ :=
    Registry.spares_empty.register spares_counting rfl
  obtain ⟨hentries, htold, -, -⟩ := published_run hregistry run_countedFleet
  have hentry : ∃ e, countedFleet.jobs.get? 1 = some e ∧
      e.snapshot.steps.map (·.status) = [.running] := ⟨_, rfl, rfl⟩
  obtain ⟨e, he, hstatus⟩ := hentry
  exact ⟨e, he, hstatus, (hentries 1 e he).2, rfl, (htold 1).notices⟩

end Fleet

end Flotilla
