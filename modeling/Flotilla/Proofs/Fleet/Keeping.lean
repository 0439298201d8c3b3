import Flotilla.Proofs.Fleet.Published

/-!
# What holds of a job all along a run

A law says something of the entry of a job and something of the records that are made of it. To be
kept along every run it has to survive a stop that is asked for and every kind of work of the job's
worker (`JobEntry.Law`). Then a job of which it holds goes on obeying it, whatever happens
beside it, and so does every record of the job that the store takes (`Fleet.upholds_run`).
-/

namespace Flotilla

/-- Work after which `P` holds of the entry, and whose record has `R`. -/
def Work.Keeps (P : JobEntry → Prop) (R : Job → Prop) (f : Fleet) (e : JobEntry) : Work → Prop
  | .change e' => P e'
  | .record job _ next =>
    R (f.stamped job) ∧ (∀ fault, P (next (.error fault) (f.stamped job) e)) ∧
      P (next (.ok ()) (f.stamped job) { e with snapshot := f.stamped job })
  | .perform run _ => ∀ result e', e.MayBeAsked e' → P (e'.afterRun f.config run result)

/-- `P` survives whatever happens to an entry of which it holds, and the records have `R`. -/
structure JobEntry.Law (P : Config → JobEntry → Prop) (R : Config → Job → Prop) : Prop where
  asked : ∀ config e e', P config e → e.MayBeAsked e' → P config e'
  works : ∀ (f : Fleet) id e, P f.config e → (e.work f id).Keeps (P f.config) (R f.config) f e

/-- What holds of everything is a law. -/
theorem JobEntry.law_true : JobEntry.Law (fun _ _ => True) (fun _ _ => True) where
  asked _ _ _ _ _ := trivial
  works f id e _ := by cases e.work f id <;> simp [Work.Keeps]

/-- A law on top of another one: it is enough to keep it where the other one holds. -/
theorem JobEntry.Law.refine {P P' : Config → JobEntry → Prop} {R R' : Config → Job → Prop}
    (h : JobEntry.Law P R)
    (hasked : ∀ config e e', P config e → P' config e → e.MayBeAsked e' → P' config e')
    (hworks : ∀ (f : Fleet) id e, P f.config e → P' f.config e →
      (e.work f id).Keeps (P' f.config) (R' f.config) f e) :
    JobEntry.Law (fun config e => P config e ∧ P' config e) R' where
  asked config e e' he ha := ⟨h.asked config e e' he.1 ha, hasked config e e' he.1 he.2 ha⟩
  works f id e he := by
    have hfirst := h.works f id e he.1
    have hsecond := hworks f id e he.1 he.2
    revert hfirst hsecond
    cases e.work f id with
    | change e' => exact And.intro
    | record job cancels next =>
      intro hfirst hsecond
      exact ⟨hsecond.1, fun fault => ⟨hfirst.2.1 fault, hsecond.2.1 fault⟩, hfirst.2.2,
        hsecond.2.2⟩
    | perform run program =>
      exact fun hfirst hsecond result e' ha => ⟨hfirst result e' ha, hsecond result e' ha⟩

namespace Fleet

variable {f g h : Fleet} {id : JobId} {e : JobEntry}
  {P : Config → JobEntry → Prop} {R : Config → Job → Prop}

/-- The records of a job that the store took between two moments are those of jobs with `R`. -/
def TakesOnly (R : Job → Prop) (id : JobId) (f g : Fleet) : Prop :=
  ∃ later, g.commitsOf id = f.commitsOf id ++ later ∧
    ∀ value ∈ later, ∃ job : Job, job.id = id ∧ Records value job ∧ R job

/-- Where nothing is committed for a job, nothing is taken. -/
theorem takesOnly_of_eq {R : Job → Prop} (h : g.commitsOf id = f.commitsOf id) :
    TakesOnly R id f g :=
  ⟨[], h.trans (List.append_nil _).symm, nofun⟩

/-- What is taken twice over has the property if both have. -/
theorem TakesOnly.trans {R : Job → Prop} (hfg : TakesOnly R id f g) (hgh : TakesOnly R id g h) :
    TakesOnly R id f h := by
  obtain ⟨later, hlater, hall⟩ := hfg
  obtain ⟨more, hmore, hall'⟩ := hgh
  refine ⟨later ++ more, by rw [hmore, hlater, List.append_assoc], fun value hvalue => ?_⟩
  rcases List.mem_append.1 hvalue with hold | hnew
  · exact hall value hold
  · exact hall' value hnew

/-- A weaker property is had as well. -/
theorem TakesOnly.imp {R R' : Job → Prop} (h : TakesOnly R id f g)
    (himp : ∀ job, R job → R' job) : TakesOnly R' id f g := by
  obtain ⟨later, hlater, hall⟩ := h
  refine ⟨later, hlater, fun value hvalue => ?_⟩
  obtain ⟨job, hid, hrecords, hR⟩ := hall value hvalue
  exact ⟨job, hid, hrecords, himp job hR⟩

/-- A record with the property is all that is taken. -/
theorem Takes.takesOnly {R : Job → Prop} {job : Job} (h : Takes f g job) (hR : R job) :
    TakesOnly R job.id f g := by
  have hcommits := h.commits job.id
  rw [if_pos rfl] at hcommits
  refine ⟨[job.toRecord.toBytes], hcommits, fun value hvalue => ?_⟩
  obtain rfl := List.mem_singleton.1 hvalue
  exact ⟨job, rfl, records_toBytes job, hR⟩

private theorem Takes.commits_of_ne {job : Job} (h : Takes f g job) (hid : job.id ≠ id) :
    g.commitsOf id = f.commitsOf id := by
  rw [h.commits, if_neg hid, List.append_nil]

/-- No turn changes the configuration. -/
theorem Works.config_eq {work : Work} (h : f.Works id e work g) : g.config = f.config := by
  cases h with
  | change | refused | taken => rfl
  | @performed run program result g e' before agenda hrun hentry =>
    have hran := ran_run id e.job.target program { f with agenda := before }
    rw [hrun] at hran
    exact hran.config

/-- A turn of a worker keeps what its work keeps. -/
theorem Works.keeps {P : JobEntry → Prop} {R : Job → Prop} (hf : f.Fit)
    (he : f.jobs.get? id = some e) (h : f.Works id e (e.work f id) g)
    (hkeeps : (e.work f id).Keeps P R f e) :
    (∃ e', g.jobs.get? id = some e' ∧ P e') ∧ TakesOnly R id f g ∧
      ∀ job, job ≠ id → g.commitsOf job = f.commitsOf job := by
  have hpreserves := e.preserves_work f id
  have hspares := e.spares_work f id (hf.stages id e he) hf.registry
  generalize e.work f id = work at h hkeeps hpreserves hspares
  cases h with
  | change e' agenda permits =>
    exact ⟨⟨e', Table.get?_set_self .., hkeeps⟩, takesOnly_of_eq rfl, fun _ _ => rfl⟩
  | @refused job cancels next fault m agenda hstore _ =>
    exact ⟨⟨_, Table.get?_set_self .., hkeeps.2.1 fault⟩, takesOnly_of_eq rfl, fun _ _ => rfl⟩
  | @taken job cancels next tx m agenda hstore _ =>
    have hid : (f.stamped job).id = id := hpreserves.1.trans (hf.ids id e he)
    let g : Fleet := { f.recorded tx (f.stamped job) with
      agenda
      transactions := m
      correlator := f.settling id cancels
      jobs := f.jobs.set id (next (.ok ()) (f.stamped job) { e with snapshot := f.stamped job }) }
    have htakes : Takes f g (f.stamped job) := ⟨⟨tx, List.append_assoc _ _ _⟩, rfl, hstore⟩
    refine ⟨⟨_, Table.get?_set_self .., hkeeps.2.2⟩, ?_, fun other hother => ?_⟩
    · exact hid ▸ htakes.takesOnly hkeeps.1
    · exact htakes.commits_of_ne (hid.trans_ne (Ne.symm hother))
  | @performed run program result g e' before agenda hrun hentry =>
    have hran := ran_run id e.job.target program { f with agenda := before }
    have hapart := (apart_run id e.job.target hspares.2 { f with agenda := before }).1
    rw [hrun] at hran hapart
    obtain ⟨e₁, he₁, hasked⟩ := hran.entry e he
    cases hentry.symm.trans he₁
    have hcommits : ∀ job, g.commitsOf job = f.commitsOf job := hapart.silent.commits
    refine ⟨⟨_, Table.get?_set_self .., ?_⟩, takesOnly_of_eq (hcommits id), fun _ _ => hcommits _⟩
    rw [hran.config]
    exact hkeeps result e' hasked

/-- The turn of a worker commits nothing for other jobs. -/
theorem Works.commits_of_ne {job : JobId} (hf : f.Fit) (he : f.jobs.get? id = some e)
    (h : f.Works id e (e.work f id) g) (hjob : job ≠ id) : g.commitsOf job = f.commitsOf job := by
  obtain ⟨-, -, hothers⟩ := h.keeps hf he (JobEntry.law_true.works f id e trivial)
  exact hothers job hjob

/-- A job that was submitted is there with its number. -/
theorem get?_submit {target : String} {steps : List JobStep}
    (h : (f.submit target steps).1 = .ok id) :
    (f.submit target steps).2.jobs.get? id = some (.new (Job.new id target steps f.nowMs)) := by
  rcases f.submit_new target steps with ⟨fault, m, hrefused, -⟩ |
    ⟨job, tx, m, agenda, rfl, htaken, -⟩
  · rw [hrefused] at h
    cases h
  · rw [htaken] at h
    obtain rfl : f.nextId = id := Except.ok.inj h
    rw [htaken]
    exact Table.get?_set_self ..

/-- What becomes of a job that obeys a law: it goes on obeying it, and so do the records of it that
the store has taken. -/
structure Obeys (P : Config → JobEntry → Prop) (R : Config → Job → Prop) (id : JobId)
    (f g : Fleet) : Prop where
  absent : f.jobs.get? id = none → g.jobs.get? id = none
  entry : ∀ e, f.jobs.get? id = some e → P f.config e →
    ∃ e', g.jobs.get? id = some e' ∧ P g.config e'
  takes : ∀ e, f.jobs.get? id = some e → P f.config e → TakesOnly (R f.config) id f g

/-- Where nothing happens to a job, every law is obeyed. -/
theorem obeys_of_eq (hconfig : g.config = f.config) (hjobs : g.jobs.get? id = f.jobs.get? id)
    (hcommits : g.commitsOf id = f.commitsOf id) : Obeys P R id f g where
  absent h := hjobs.trans h
  entry e he hP := ⟨e, hjobs.trans he, hconfig ▸ hP⟩
  takes _ _ _ := takesOnly_of_eq hcommits

/-- Asking for a stop obeys every law. -/
theorem obeys_stop (hlaw : JobEntry.Law P R) (f : Fleet) (job : JobId) :
    Obeys P R id f (f.stop job).2 := by
  have hran := f.ran_stop job
  have hcommits := (f.apart_stop job).silent.commits id
  by_cases hjob : id = job
  · subst hjob
    refine ⟨fun hnone => ?_, fun e he hP => ?_, fun _ _ _ => takesOnly_of_eq hcommits⟩
    · have hrel := (f.quiet_stop id).entries id
      rw [hnone] at hrel
      cases hgone : (f.stop id).2.jobs.get? id with
      | none => rfl
      | some e => rw [hgone] at hrel; cases hrel
    · obtain ⟨e', he', hasked⟩ := hran.entry e he
      exact ⟨e', he', hran.config ▸ hlaw.asked f.config e e' hP hasked⟩
  · exact obeys_of_eq hran.config (hran.others id hjob) hcommits

/-- The turn of a worker obeys every law. -/
theorem obeys_workerTurn (hlaw : JobEntry.Law P R) (hf : f.Fit) (job : JobId) :
    Obeys P R id f (f.workerTurn job).fleet := by
  cases he : f.jobs.get? job with
  | none =>
    rw [workerTurn_of_none he]
    exact obeys_of_eq rfl rfl rfl
  | some e =>
    have hworks := workerTurn_works he (hf.ids job e he)
    have hconfig := hworks.config_eq
    by_cases hjob : id = job
    · subst hjob
      have hkeeps (hP : P f.config e) := hworks.keeps hf he (hlaw.works f id e hP)
      refine ⟨fun hnone => ?_, fun e₁ he₁ hP => ?_, fun e₁ he₁ hP => ?_⟩
      · cases he.symm.trans hnone
      · cases he.symm.trans he₁
        obtain ⟨⟨e', he', hP'⟩, -, -⟩ := hkeeps hP
        exact ⟨e', he', hconfig ▸ hP'⟩
      · cases he.symm.trans he₁
        exact (hkeeps hP).2.1
    · exact obeys_of_eq hconfig (hworks.workerFrame.others id hjob)
        (hworks.commits_of_ne hf he hjob)

/-- Submitting a job obeys every law about others. -/
theorem obeys_submit (f : Fleet) (target : String) (steps : List JobStep) (hid : f.nextId ≠ id) :
    Obeys P R id f (f.submit target steps).2 := by
  rcases f.submit_cases target steps with ⟨fault, m, hsubmit, -⟩ |
    ⟨job, tx, m, agenda, hjob, -, hsubmit, hm⟩
  · rw [hsubmit]
    exact obeys_of_eq rfl rfl rfl
  · rw [hsubmit]
    have htakes : Takes f { f.recorded tx job with
        agenda
        submitted := f.submitted + 1
        transactions := m
        jobs := f.jobs.set f.nextId (.new job) } job :=
      ⟨⟨tx, List.append_assoc _ _ _⟩, rfl, hm⟩
    exact obeys_of_eq rfl (Table.get?_set_ne _ _ hid) (htakes.commits_of_ne (hjob.trans_ne hid))

/-- In a step a job goes on obeying a law, or its number is given out to a new job. -/
theorem Step.obeys (h : Step (fun key => ¬IsJobKey key) f g) (hlaw : JobEntry.Law P R) (hf : f.Fit)
    (id : JobId) :
    Obeys P R id f g ∨ (f.nextId = id ∧ g.submitted = f.submitted + 1 ∧
      ∃ job : Job, job.state = .created ∧ g.jobs.get? id = some (.new job)) := by
  rcases h.split hf.callers with hbeside | rfl | ⟨writes, reads, hwrites, rfl⟩ | ⟨job, rfl⟩ |
    ⟨target, steps, rfl⟩ | ⟨job, rfl⟩
  · exact Or.inl (obeys_of_eq hbeside.aside.config (by rw [hbeside.aside.jobs])
      (hbeside.apart.silent.commits id))
  · have haside := f.aside_readerTurn
    exact Or.inl (obeys_of_eq haside.config (by rw [haside.jobs])
      (f.silent_readerTurn.commits id))
  · exact Or.inl (obeys_of_eq rfl rfl ((f.quiet_writeBehind reads hwrites).silent.commits id))
  · exact Or.inl (obeys_workerTurn hlaw hf job)
  · by_cases hid : f.nextId = id
    · rcases f.submit_cases target steps with ⟨fault, m, hsubmit, -⟩ |
        ⟨job, tx, m, agenda, -, hstate, hsubmit, -⟩
      · rw [hsubmit]
        exact Or.inl (obeys_of_eq rfl rfl rfl)
      · rw [hsubmit]
        refine Or.inr ⟨hid, rfl, job, hstate, ?_⟩
        rw [← hid]
        exact Table.get?_set_self ..
    · exact Or.inl (f.obeys_submit target steps hid)
  · exact Or.inl (f.obeys_stop hlaw job)

/-- The settings stay as they are, and numbers are given out one after the other. -/
theorem Step.steady (h : Step (fun key => ¬IsJobKey key) f g) (hf : f.Fit) :
    g.config = f.config ∧ f.submitted ≤ g.submitted := by
  rcases h.split hf.callers with hbeside | rfl | ⟨writes, reads, hwrites, rfl⟩ | ⟨job, rfl⟩ |
    ⟨target, steps, rfl⟩ | ⟨job, rfl⟩
  · exact ⟨hbeside.aside.config, Nat.le_of_eq hbeside.aside.submitted.symm⟩
  · have haside := f.aside_readerTurn
    exact ⟨haside.config, Nat.le_of_eq haside.submitted.symm⟩
  · exact ⟨rfl, Nat.le_refl _⟩
  · cases he : f.jobs.get? job with
    | none =>
      rw [workerTurn_of_none he]
      exact ⟨rfl, Nat.le_refl _⟩
    | some e =>
      have hworks := workerTurn_works he (hf.ids job e he)
      exact ⟨hworks.config_eq, Nat.le_of_eq hworks.workerFrame.submitted.symm⟩
  · rcases f.submit_cases target steps with ⟨fault, m, hsubmit, -⟩ |
      ⟨job, tx, m, agenda, -, -, hsubmit, -⟩ <;>
    · rw [hsubmit]
      exact ⟨rfl, Nat.le_succ _⟩
  · have hran := f.ran_stop job
    exact ⟨hran.config, Nat.le_of_eq hran.submitted.symm⟩

/-- The settings and the kinds of steps stay as they are. -/
theorem Step.settings (h : Step (fun key => ¬IsJobKey key) f g) (hf : f.Fit) :
    g.config = f.config ∧ g.registry = f.registry := by
  refine ⟨(h.steady hf).1, ?_⟩
  rcases h.publishes hf with hquiet | ⟨job, hpublishes⟩
  · exact hquiet.registry
  · exact hpublishes.registry

/-- A run leaves the configuration and the registry as they are. -/
theorem settings_of_run {config : Config} {store : UnreliableStore} {registry : Registry}
    (hregistry : registry.Spares)
    (h : Run (fun key => ¬IsJobKey key) (opened config store registry) f) :
    f.config = config ∧ f.registry = registry := by
  induction h with
  | refl =>
    obtain ⟨agenda, broker, correlating, held, hopened⟩ := opened_eq config store registry
    rw [hopened]
    exact ⟨rfl, rfl⟩
  | tail hrun hstep ih =>
    have hsame := hstep.settings (published_of_run hregistry hrun).fit
    exact ⟨hsame.1.trans ih.1, hsame.2.trans ih.2⟩

/-- A law that new jobs obey goes on holding of every job. -/
theorem Step.obeys_all (h : Step (fun key => ¬IsJobKey key) f g) (hlaw : JobEntry.Law P R)
    (hf : f.Fit) (hnew : ∀ config (job : Job), job.state = .created → P config (.new job))
    (hall : ∀ id e, f.jobs.get? id = some e → P f.config e) (id : JobId) (e' : JobEntry)
    (he' : g.jobs.get? id = some e') : P g.config e' := by
  rcases h.obeys hlaw hf id with hobeys | ⟨-, -, job, hstate, hjob⟩
  · cases he : f.jobs.get? id with
    | none => cases (hobeys.absent he).symm.trans he'
    | some e =>
      obtain ⟨e₁, he₁, hP⟩ := hobeys.entry e he (hall id e he)
      cases he₁.symm.trans he'
      exact hP
  · cases hjob.symm.trans he'
    exact hnew g.config job hstate

/-- A number that has been given out belongs to the same job as long as numbers last. -/
theorem Step.obeys_given (h : Step (fun key => ¬IsJobKey key) f g) (hlaw : JobEntry.Law P R)
    (hf : f.Fit) (hgiven : id.toNat ≤ f.submitted) (hlt : g.submitted < 2 ^ 64) :
    Obeys P R id f g := by
  rcases h.obeys hlaw hf id with hobeys | ⟨hid, hsubmitted, -⟩
  · exact hobeys
  · exact (nextId_ne hgiven (hsubmitted ▸ hlt) hid).elim

/-- Every job that is there has got its number. -/
def Given (f : Fleet) : Prop := ∀ id e, f.jobs.get? id = some e → id.toNat ≤ f.submitted

/-- Every job has a number that was given out. -/
theorem Step.given (h : Step (fun key => ¬IsJobKey key) f g) (hf : f.Fit) (hgiven : f.Given) :
    g.Given := by
  intro id e' he'
  have hsubmitted := (h.steady hf).2
  rcases h.obeys JobEntry.law_true hf id with hobeys | ⟨hid, hnext, -⟩
  · cases he : f.jobs.get? id with
    | none => cases (hobeys.absent he).symm.trans he'
    | some e => exact Nat.le_trans (hgiven id e he) hsubmitted
  · rw [← hid, hnext]
    exact f.toNat_nextId_le

/-- What the steps of a run do as far as a law and the number of one job go. -/
structure Upholds (P : Config → JobEntry → Prop) (R : Config → Job → Prop) (id : JobId)
    (f g : Fleet) : Prop where
  config : g.config = f.config
  submitted : f.submitted ≤ g.submitted
  obeys : id.toNat ≤ f.submitted → g.submitted < 2 ^ 64 → Obeys P R id f g

private theorem Obeys.trans (hfg : Obeys P R id f g) (hgh : Obeys P R id g h)
    (hconfig : g.config = f.config) : Obeys P R id f h where
  absent hf := hgh.absent (hfg.absent hf)
  entry e he hP := by
    obtain ⟨e', he', hP'⟩ := hfg.entry e he hP
    exact hgh.entry e' he' hP'
  takes e he hP := by
    obtain ⟨e', he', hP'⟩ := hfg.entry e he hP
    have hlater := hgh.takes e' he' hP'
    rw [hconfig] at hlater
    exact (hfg.takes e he hP).trans hlater

/-- What is upheld by two runs is upheld by both together. -/
theorem Upholds.trans (hfg : Upholds P R id f g) (hgh : Upholds P R id g h) :
    Upholds P R id f h where
  config := hgh.config.trans hfg.config
  submitted := Nat.le_trans hfg.submitted hgh.submitted
  obeys hgiven hlt :=
    (hfg.obeys hgiven (Nat.lt_of_le_of_lt hgh.submitted hlt)).trans
      (hgh.obeys (Nat.le_trans hgiven hfg.submitted) hlt) hfg.config

/-- A step upholds every law. -/
theorem Step.upholds (h : Step (fun key => ¬IsJobKey key) f g) (hlaw : JobEntry.Law P R)
    (hf : f.Fit) (id : JobId) : Upholds P R id f g where
  config := (h.steady hf).1
  submitted := (h.steady hf).2
  obeys hgiven hlt := h.obeys_given hlaw hf hgiven hlt

/-- What every single step upholds, a run of such steps upholds; `I` is what holds at every point of
it. -/
theorem upholds_run {I : Fleet → Prop} {S : Fleet → Fleet → Prop}
    (hstep : ∀ f g, I f → S f g → I g ∧ Upholds P R id f g) (hf : I f)
    (h : Relation.ReflTransGen S f g) : I g ∧ Upholds P R id f g := by
  induction h with
  | refl => exact ⟨hf, rfl, Nat.le_refl _, fun _ _ => obeys_of_eq rfl rfl rfl⟩
  | tail _ hlast ih =>
    obtain ⟨hI, hupholds⟩ := ih
    obtain ⟨hI', hlast'⟩ := hstep _ _ hI hlast
    exact ⟨hI', hupholds.trans hlast'⟩

/-- A law that holds of a job at one point of a run, kept along the rest of it. -/
theorem Run.upholds {s₀ : Store} (h : Run (fun key => ¬IsJobKey key) f g)
    (hlaw : JobEntry.Law P R) (hf : Published s₀ f) (id : JobId) : Upholds P R id f g :=
  (upholds_run (fun _ _ hf hstep => ⟨hf.step hstep, hstep.upholds hlaw hf.fit id⟩) hf h).2

end Fleet

end Flotilla
