import Flotilla.Proofs.Fleet.Ending
import Flotilla.Proofs.Fleet.Guidance
import Flotilla.Proofs.Fleet.Stopping

/-!
# What a step does to a job

In every step of a run, whatever the programs of the steps and whoever is outside write, one of
three things happens to a job: its worker takes a turn, it is at most marked to be stopped, or its
number is given out to a new job (`Fleet.JobEffect`). A rule that survives marks and turns therefore
goes on holding of a job (`Fleet.LooseRun.sustains`), and the history of the job, the states and the
steps in which it was recorded, grows only by what its worker records.
-/

namespace Flotilla

namespace JobEntry

/-- What others than its worker can make of the entry of a job if a stop may come in two strokes. -/
inductive Marked (e : JobEntry) : JobEntry → Prop
  | asked {e' : JobEntry} (h : e.MayBeAsked e') : Marked e e'
  | claimed (hphase : e.phase = .running) : Marked e { e with phase := .stopRequested }
  | raised (hclaimed : e.phase = .stopRequested ∨ e.phase = .finished) :
    Marked e { e with stop := true }

/-- What no mark changes. -/
structure Same (e e' : JobEntry) : Prop where
  snapshot : e'.snapshot = e.snapshot
  job : e'.job = e.job
  stage : e'.stage = e.stage

variable {e e' : JobEntry} {P P' : Config → Registry → JobEntry → Prop}

private theorem Marked.refl (e : JobEntry) : e.Marked e := .asked (Or.inl rfl)

/-- Asking for a stop changes nothing but what a mark may. -/
theorem MayBeAsked.same (h : e.MayBeAsked e') : e.Same e' := by
  rcases h with rfl | ⟨-, rfl⟩ <;> exact ⟨rfl, rfl, rfl⟩

/-- What a mark may not change stays the same. -/
theorem Marked.same (h : e.Marked e') : e.Same e' := by
  cases h with
  | asked h => exact h.same
  | claimed | raised => exact ⟨rfl, rfl, rfl⟩

/-- What holds of an entry whatever its worker hears, also when a stop comes in two strokes. -/
structure Rule (P : Config → Registry → JobEntry → Prop) : Prop
    extends GuidedLaw (fun _ _ => True) P where
  claimed : ∀ config registry e, P config registry e → e.phase = .running →
    P config registry { e with phase := .stopRequested }
  raised : ∀ config registry e, P config registry e →
    (e.phase = .stopRequested ∨ e.phase = .finished) → P config registry { e with stop := true }

/-- A mark keeps every rule. -/
theorem Rule.marked (h : Rule P) {config : Config} {registry : Registry}
    (hP : P config registry e) (hm : e.Marked e') : P config registry e' := by
  cases hm with
  | asked hm => exact h.asked config registry e e' hP hm
  | claimed hphase => exact h.claimed config registry e hP hphase
  | raised hclaimed => exact h.raised config registry e hP hclaimed

/-- A law that survives a stop in two strokes is a rule. -/
theorem FineLaw.rule {P : Config → JobEntry → Prop} {R : Config → Job → Prop} (h : FineLaw P R) :
    Rule fun config _ e => P config e where
  toGuidedLaw := h.toLaw.guided _
  claimed config _ := h.claimed config
  raised config _ := h.raised config

/-- A rule about nothing that a mark changes. -/
theorem Rule.of_same
    (hsame : ∀ config registry e e', P config registry e → e.Same e' → P config registry e')
    (hworks : ∀ (f : Fleet) id e e', P f.config f.registry e → (e.work f id).Brings f id e e' →
      P f.config f.registry e') : Rule P where
  asked config registry e e' he ha := hsame config registry e e' he ha.same
  works f id e e' _ _ he hbrings := hworks f id e e' he hbrings
  claimed config registry e he hphase :=
    hsame config registry e _ he (Marked.claimed hphase).same
  raised config registry e he hclaimed :=
    hsame config registry e _ he (Marked.raised hclaimed).same

/-- A rule on top of another one, about nothing that a mark changes. -/
theorem Rule.refine (h : Rule P)
    (hsame : ∀ config registry e e', P' config registry e → e.Same e' → P' config registry e')
    (hworks : ∀ (f : Fleet) id e e', e.job.id = id → P f.config f.registry e →
      P' f.config f.registry e → (e.work f id).Brings f id e e' → P' f.config f.registry e') :
    Rule fun config registry e => P config registry e ∧ P' config registry e where
  asked config registry e e' he ha :=
    ⟨h.asked config registry e e' he.1 ha, hsame config registry e e' he.2 ha.same⟩
  works f id e e' hid _ he hbrings :=
    ⟨h.works f id e e' hid trivial he.1 hbrings, hworks f id e e' hid he.1 he.2 hbrings⟩
  claimed config registry e he hphase :=
    ⟨h.claimed config registry e he.1 hphase,
      hsame config registry e _ he.2 (Marked.claimed hphase).same⟩
  raised config registry e he hclaimed :=
    ⟨h.raised config registry e he.1 hclaimed,
      hsame config registry e _ he.2 (Marked.raised hclaimed).same⟩

end JobEntry

/-- What a turn of its worker makes of the entry of a job as far as records go: it makes none, or
one becomes the snapshot. -/
inductive Work.Leaves (f : Fleet) (e e' : JobEntry) (work : Work) : Prop
  | unrecorded (e₁ : JobEntry) (h : e.MayBeAsked e₁) (hpreserved : e₁.Preserved e')
  | recorded {job : Job} {cancels : Bool}
    {next : Except Fault Unit → Job → JobEntry → JobEntry}
    (hwork : work = .record job cancels next)
    (hid : job.id = e.job.id)
    (hanswer : (f.persist job).1 = .ok ())
    (hnext : e' = next (.ok ()) (f.stamped job) { e with snapshot := f.stamped job })
    (hpreserved : { e with snapshot := f.stamped job, job := f.stamped job }.Preserved e')

/-- A turn makes one record, or none. -/
theorem JobEntry.leaves_of_brings {f : Fleet} {id : JobId} {e e' : JobEntry}
    (h : (e.work f id).Brings f id e e') : (e.work f id).Leaves f e e' := by
  have hpreserves := e.preserves_work f id
  cases hwork : e.work f id with
  | change e₁ =>
    rw [hwork] at h hpreserves
    obtain rfl := h
    exact .unrecorded e (Or.inl rfl) hpreserves
  | record job cancels next =>
    rw [hwork] at h hpreserves
    rcases h with ⟨fault, -, rfl⟩ | ⟨hanswer, rfl⟩
    · exact .unrecorded e (Or.inl rfl) (hpreserves.2.1 fault)
    · exact .recorded rfl hpreserves.1 hanswer rfl hpreserves.2.2
  | perform run program =>
    rw [hwork] at h
    obtain ⟨e₁, ha, rfl⟩ := h
    exact .unrecorded e₁ ha (e₁.preserved_afterRun f.config run _)

/-- No turn gives a job another number. -/
theorem Work.Leaves.id_eq {f : Fleet} {e e' : JobEntry} {work : Work} (h : work.Leaves f e e') :
    e'.job.id = e.job.id := by
  cases h with
  | unrecorded e₁ ha hpreserved => exact hpreserved.id.trans (congrArg Job.id ha.same.job)
  | recorded hwork hid hanswer hnext hpreserved => exact hpreserved.id.trans hid

namespace Fleet

/-- The states in which a job was recorded, each with the step whose turn it was, the earliest
first. -/
def historyOf (f : Fleet) (id : JobId) : List (JobState × Nat) :=
  f.chronicle.records.filterMap fun r => if r.2.1 = id then some r.2.2 else none

/-- One notice was sent for each record of a job. -/
def Announced (f : Fleet) : Prop := f.sent = f.chronicle.records.map Prod.snd

/-- No job was recorded, and no notice was sent. -/
structure Unrecorded (f g : Fleet) : Prop where
  records : g.chronicle.records = f.chronicle.records
  sent : g.sent = f.sent

variable {f g h : Fleet} {id : JobId} {e e' : JobEntry} {may : String → Prop}
  {P : Config → Registry → JobEntry → Prop}

private theorem unrecorded_of_eq (hchronicle : g.chronicle = f.chronicle) (hunread :
    g.unread = f.unread) :
    Unrecorded f g :=
  ⟨by rw [hchronicle], by rw [sent, sent, hchronicle, hunread]⟩

private theorem Unrecorded.trans (hfg : Unrecorded f g) (hgh : Unrecorded g h) : Unrecorded f h :=
  ⟨hgh.records.trans hfg.records, hgh.sent.trans hfg.sent⟩

/-- Where no job is recorded, no history grows. -/
theorem Unrecorded.historyOf (h : Unrecorded f g) (id : JobId) :
    g.historyOf id = f.historyOf id := by
  rw [Fleet.historyOf, h.records]
  rfl

private theorem Unrecorded.announced (h : Unrecorded f g) (hf : f.Announced) : g.Announced := by
  rw [Announced, h.sent, h.records]
  exact hf

/-- As long as there is one notice for each record, the notices tell the history. -/
theorem Announced.noticesOf (h : f.Announced) (id : JobId) : f.noticesOf id = f.historyOf id := by
  rw [Fleet.noticesOf, h, List.filterMap_map]
  rfl

private theorem records_of_spares {events : Chronicle} (h : ∀ e ∈ events, e.2.Spares) :
    events.records = [] := by
  refine List.filterMap_eq_nil_iff.2 fun e he => ?_
  have hspares := h e he
  revert hspares
  cases e.2 with
  | recorded job state step => exact False.elim
  | published | delivered | committed | noticed | noted | settled | closed => exact fun _ => rfl

private theorem Apart.unrecorded (h : Apart f g) : Unrecorded f g := by
  obtain ⟨events, hevents, hspares⟩ := h.chronicle
  refine ⟨?_, h.silent.sent⟩
  rw [hevents, Chronicle.records_append, records_of_spares hspares, List.append_nil]

private theorem unrecorded_readerTurn (f : Fleet) : Unrecorded f f.readerTurn.fleet := by
  refine ⟨?_, f.silent_readerTurn.sent⟩
  have hread (l : List (JobId × JobState × Nat)) :
      Chronicle.records (l.map fun n => (f.now, .noticed n.1 n.2.1 n.2.2)) = [] := by
    induction l with
    | nil => rfl
    | cons n l ih => exact ih
  rw [readerTurn_eq, Chronicle.records_append, hread, List.append_nil]

private theorem unrecorded_chronicled (f : Fleet) {event : Event}
    (hrecords : Chronicle.records [(f.now, event)] = [])
    (hnotices : Chronicle.notices [(f.now, event)] = []) : Unrecorded f (f.chronicled event) := by
  constructor
  · rw [chronicled, Chronicle.records_append, hrecords, List.append_nil]
  · rw [sent, chronicled, Chronicle.notices_append, hnotices, List.append_nil]
    rfl

private theorem unrecorded_answerStore (f : Fleet) (q : StoreAsk) :
    Unrecorded f (f.answerStore q).2 := by
  unfold answerStore
  generalize q.answer f.now f.transactions = r
  obtain ⟨answer, m⟩ := r
  have hstore : Unrecorded f { f with transactions := m } := unrecorded_of_eq rfl rfl
  dsimp only
  cases hevent : q.event? answer with
  | none => exact hstore
  | some event =>
    refine hstore.trans (unrecorded_chronicled _ ?_ ?_) <;>
    · unfold StoreAsk.event? at hevent
      split at hevent <;> cases hevent
      rfl

/-- A program records no job, whatever it writes. -/
theorem unrecorded_run {α : Type} (id : JobId) (target : String) (program : Program Stepping α)
    (f : Fleet) : Unrecorded f (f.run id target program).2 := by
  refine run_induct (P := Unrecorded f) ?_ ?_ ?_ ?_ target program (unrecorded_of_eq rfl rfl)
  · exact fun g q hg => hg.trans (g.unrecorded_answerStore q)
  · exact fun g request timeout _ hg => hg.trans (g.apart_send request timeout).unrecorded
  · exact fun g hg => hg.trans (g.apart_stop id).unrecorded
  · exact fun g note hg => hg.trans (g.unrecorded_chronicled rfl rfl)

private theorem records_recorded {job : Job} {tx : Nat}
    (h : g.chronicle = (f.recorded tx job).chronicle) :
    g.chronicle.records =
      f.chronicle.records ++ [(f.now, job.id, job.state, job.currentStep)] := by
  have hchronicle : g.chronicle = f.chronicle ++
      [(f.now, .committed tx [recordOf job]),
        (f.now, .recorded job.id job.state job.currentStep)] :=
    h.trans (List.append_assoc _ _ _)
  rw [hchronicle, Chronicle.records_append]
  rfl

/-- One record of a job comes into its history and into no other. -/
theorem historyOf_recorded {job : Job} {tx : Nat}
    (h : g.chronicle = (f.recorded tx job).chronicle) (id : JobId) :
    g.historyOf id =
      f.historyOf id ++ if job.id = id then [(job.state, job.currentStep)] else [] := by
  rw [historyOf, records_recorded h, List.filterMap_append]
  refine congrArg (f.historyOf id ++ ·) ?_
  by_cases hid : job.id = id <;> simp [hid]

private theorem announced_recorded {job : Job} {tx : Nat}
    (hchronicle : g.chronicle = (f.recorded tx job).chronicle)
    (hunread : g.unread = (f.recorded tx job).unread) (hf : f.Announced) : g.Announced := by
  have hnotices : g.chronicle.notices = f.chronicle.notices := by
    rw [hchronicle, recorded, announce, wake, chronicled, chronicled, modifyJob]
    simp [Chronicle.notices, Chronicle.strand]
  have hsent : g.sent = f.sent ++ [(job.id, job.state, job.currentStep)] := by
    rw [sent, hnotices, hunread, sent, List.append_assoc]
    rfl
  rw [Announced, hsent, hf, records_recorded hchronicle, List.map_append]
  rfl

/-- What a turn of its worker shows of a job: nothing new, or one record that was taken. -/
inductive Shows (f : Fleet) (id : JobId) (e e' : JobEntry) (g : Fleet) : Prop
  | unrecorded (hsnapshot : e'.snapshot = e.snapshot) (hhistory : g.historyOf id = f.historyOf id)
  | recorded {job : Job} {cancels : Bool} {next : Except Fault Unit → Job → JobEntry → JobEntry}
    (hwork : e.work f id = .record job cancels next) (hsnapshot : e'.snapshot = f.stamped job)
    (hhistory : g.historyOf id = f.historyOf id ++ [(job.state, job.currentStep)])

/-- A turn of a worker brings about what its work brings about, and shows what it records. -/
theorem Works.shows (he : f.jobs.get? id = some e) (hid : e.job.id = id)
    (h : f.Works id e (e.work f id) g) :
    ∃ e', g.jobs.get? id = some e' ∧ (e.work f id).Brings f id e e' ∧ Shows f id e e' g := by
  obtain ⟨e', he', hbrings⟩ := h.brings he
  refine ⟨e', he', hbrings, ?_⟩
  have hpreserves := e.preserves_work f id
  generalize hwork : e.work f id = work at h hpreserves
  cases h with
  | change e₁ agenda permits =>
    cases (Table.get?_set_self ..).symm.trans he'
    exact .unrecorded hpreserves.snapshot rfl
  | refused fault m agenda _ _ =>
    cases (Table.get?_set_self ..).symm.trans he'
    exact .unrecorded (hpreserves.2.1 fault).snapshot rfl
  | @taken job cancels next tx m agenda _ _ =>
    cases (Table.get?_set_self ..).symm.trans he'
    refine .recorded hwork hpreserves.2.2.snapshot ?_
    have hjob : (f.stamped job).id = id := hpreserves.1.trans hid
    exact (historyOf_recorded rfl id).trans (by rw [if_pos hjob]; rfl)
  | @performed run program result g e₁ before agenda hrun hentry =>
    have hran := ran_run id e.job.target program { f with agenda := before }
    have hunrecorded := unrecorded_run id e.job.target program { f with agenda := before }
    rw [hrun] at hran hunrecorded
    obtain ⟨e₂, he₂, hasked⟩ := hran.entry e he
    cases hentry.symm.trans he₂
    cases (Table.get?_set_self ..).symm.trans he'
    refine .unrecorded ?_ (hunrecorded.historyOf id)
    exact (e₁.preserved_afterRun g.config run result).snapshot.trans hasked.same.snapshot

/-- A turn announces the record that it makes. -/
theorem Works.announced {work : Work} (h : f.Works id e work g) (hf : f.Announced) :
    g.Announced := by
  cases h with
  | change e₁ agenda permits => exact hf
  | refused fault m agenda _ _ => exact hf
  | taken tx m agenda _ _ => exact announced_recorded rfl rfl hf
  | @performed run program result g e₁ before agenda hrun hentry =>
    have hunrecorded := unrecorded_run id e.job.target program { f with agenda := before }
    rw [hrun] at hunrecorded
    exact hunrecorded.announced hf

/-- The history of no other job grows in a turn of a worker. -/
theorem Works.history_of_ne (hid : e.job.id = id) (h : f.Works id e (e.work f id) g) {job : JobId}
    (hjob : job ≠ id) : g.historyOf job = f.historyOf job := by
  have hpreserves := e.preserves_work f id
  generalize e.work f id = work at h hpreserves
  cases h with
  | change e₁ agenda permits => rfl
  | refused fault m agenda _ _ => rfl
  | @taken recorded cancels next tx m agenda _ _ =>
    have hne : (f.stamped recorded).id ≠ job := (hpreserves.1.trans hid).trans_ne (Ne.symm hjob)
    exact (historyOf_recorded rfl job).trans (by rw [if_neg hne, List.append_nil])
  | @performed run program result g e₁ before agenda hrun hentry =>
    have hunrecorded := unrecorded_run id e.job.target program { f with agenda := before }
    rw [hrun] at hunrecorded
    exact hunrecorded.historyOf job

/-- Workers that have the jobs that they are the workers of, under numbers that were given out. -/
structure Rooted (f : Fleet) : Prop where
  callers : f.OutsideCallers
  ids : ∀ id e, f.jobs.get? id = some e → e.job.id = id
  given : f.Given

/-- What a step does to a job. -/
inductive JobEffect (id : JobId) (f g : Fleet) : Prop
  /-- At most it is marked. -/
  | beside (hentry : Option.Rel JobEntry.Marked (f.jobs.get? id) (g.jobs.get? id))
    (hhistory : g.historyOf id = f.historyOf id)
  | turn {e e' : JobEntry} (he : f.jobs.get? id = some e) (he' : g.jobs.get? id = some e')
    (hturn : g = (f.workerTurn id).fleet) (hbrings : (e.work f id).Brings f id e e')
    (hshows : Shows f id e e' g)
  /-- Its number is given out. -/
  | submitted (target : String) (steps : List JobStep) (hid : f.nextId = id)
    (hsubmitted : g.submitted = f.submitted + 1)
    (he' : g.jobs.get? id = some (.new (Job.new id target steps f.nowMs)))
    (hhistory : g.historyOf id = f.historyOf id ++ [(.created, 0)])

/-- What a step leads to. -/
structure Leads (f g : Fleet) : Prop where
  config : g.config = f.config
  registry : g.registry = f.registry
  submitted : f.submitted ≤ g.submitted
  /-- Keys of requests are given out one after the other. -/
  sent : f.correlator.sent ≤ g.correlator.sent
  callers : g.OutsideCallers
  announced : f.Announced → g.Announced
  effects : ∀ id, JobEffect id f g

private theorem rel_marked_refl (entry : Option JobEntry) :
    Option.Rel JobEntry.Marked entry entry := by
  cases entry with
  | none => exact .none
  | some e => exact .some (.refl e)

private theorem jobEffect_of_eq (hjobs : g.jobs.get? id = f.jobs.get? id)
    (hhistory : g.historyOf id = f.historyOf id) : JobEffect id f g :=
  .beside (hjobs ▸ rel_marked_refl _) hhistory

private theorem jobEffect_set (he : f.jobs.get? id = some e) (hm : e.Marked e')
    (hjobs : g.jobs = f.jobs.set id e') (hchronicle : g.chronicle = f.chronicle) (job : JobId) :
    JobEffect job f g := by
  have hhistory : g.historyOf job = f.historyOf job := by rw [historyOf, hchronicle]; rfl
  by_cases hjob : id = job
  · subst hjob
    refine .beside ?_ hhistory
    rw [he, hjobs, Table.get?_set_self]
    exact .some hm
  · exact jobEffect_of_eq (by rw [hjobs, Table.get?_set_ne _ _ hjob]) hhistory

/-- A step that touches no job leads to what a step may. -/
theorem leads_aside (hf : f.Rooted) (h : Aside f g) (hunrecorded : Unrecorded f g) :
    Leads f g where
  config := h.config
  registry := h.registry
  submitted := Nat.le_of_eq h.submitted.symm
  sent := h.requests.sent
  callers := h.callers hf.callers
  announced := hunrecorded.announced
  effects id := jobEffect_of_eq (by rw [h.jobs]) (hunrecorded.historyOf id)

/-- The turn of a worker leads to what a step may. -/
theorem leads_workerTurn (hf : f.Rooted) (id : JobId) : Leads f (f.workerTurn id).fleet := by
  cases he : f.jobs.get? id with
  | none =>
    rw [workerTurn_of_none he]
    exact leads_aside hf (.refl f) (unrecorded_of_eq rfl rfl)
  | some e =>
    have hid := hf.ids id e he
    have hworks := workerTurn_works he hid
    have hframe := hworks.workerFrame
    refine ⟨hworks.config_eq, hframe.registry, Nat.le_of_eq hframe.submitted.symm,
      hframe.requests.sent, outsideCallers_of_eq hframe.callers hf.callers, hworks.announced,
      fun job => ?_⟩
    by_cases hjob : job = id
    · subst hjob
      obtain ⟨e', he', hbrings, hshows⟩ := hworks.shows he hid
      exact .turn he he' rfl hbrings hshows
    · exact jobEffect_of_eq (hframe.others job hjob) (hworks.history_of_ne hid hjob)

/-- Submitting a job leads to what a step may. -/
theorem leads_submit (hf : f.Rooted) (target : String) (steps : List JobStep) :
    Leads f (f.submit target steps).2 := by
  rcases f.submit_new target steps with ⟨fault, m, hsubmit, -⟩ |
    ⟨job, tx, m, agenda, hjob, hsubmit, -⟩
  · rw [hsubmit]
    exact ⟨rfl, rfl, Nat.le_succ _, Nat.le_refl _, hf.callers, fun hann => hann,
      fun id => jobEffect_of_eq rfl rfl⟩
  · rw [hsubmit]
    subst hjob
    refine ⟨rfl, rfl, Nat.le_succ _, Nat.le_refl _, hf.callers, announced_recorded rfl rfl,
      fun id => ?_⟩
    let job : Job := Job.new f.nextId target steps f.nowMs
    let g : Fleet := { f.recorded tx job with
      agenda
      submitted := f.submitted + 1
      transactions := m
      jobs := f.jobs.set f.nextId (.new job) }
    have hhistory : g.historyOf id =
        f.historyOf id ++ if f.nextId = id then [(.created, 0)] else [] :=
      historyOf_recorded rfl id
    by_cases hid : f.nextId = id
    · rw [if_pos hid] at hhistory
      refine .submitted target steps hid rfl ?_ hhistory
      subst hid
      exact Table.get?_set_self ..
    · rw [if_neg hid, List.append_nil] at hhistory
      exact jobEffect_of_eq (Table.get?_set_ne _ _ hid) hhistory

/-- Asking for a stop leads to what a step may. -/
theorem leads_stop (hf : f.Rooted) (id : JobId) : Leads f (f.stop id).2 := by
  have hran := f.ran_stop id
  refine ⟨hran.config, hran.registry, Nat.le_of_eq hran.submitted.symm, hran.requests.sent,
    outsideCallers_of_eq hran.callers hf.callers, (f.apart_stop id).unrecorded.announced, ?_⟩
  rcases f.stop_cases id with ⟨fault, m, hstop, -⟩ | ⟨e, -, -, hstop⟩ |
    ⟨e, agenda, htracked, hphase, hstop⟩ <;> rw [hstop]
  · exact fun job => jobEffect_of_eq rfl rfl
  · exact fun job => jobEffect_of_eq rfl rfl
  · exact jobEffect_set (get?_of_tracked? htracked).1 (.asked (Or.inr ⟨hphase, rfl⟩)) rfl rfl

/-- Every step leads to what a step may. -/
theorem Step.leads (h : Step may f g) (hf : f.Rooted) : Leads f g := by
  rcases h.split hf.callers with hbeside | rfl | ⟨writes, reads, -, rfl⟩ | ⟨id, rfl⟩ |
    ⟨target, steps, rfl⟩ | ⟨id, rfl⟩
  · exact leads_aside hf hbeside.aside hbeside.apart.unrecorded
  · exact leads_aside hf f.aside_readerTurn f.unrecorded_readerTurn
  · exact leads_aside hf ⟨rfl, rfl, rfl, rfl, rfl, fun h => h, .refl _ _⟩ (unrecorded_of_eq rfl rfl)
  · exact leads_workerTurn hf id
  · exact leads_submit hf target steps
  · exact leads_stop hf id

/-- Whatever happens in a step, some owner is served. -/
theorem Step.serves (h : Step may f g) (hf : f.Rooted) :
    ∃ owner, Correlator.Serves owner f.correlator g.correlator := by
  rcases h.split hf.callers with hbeside | rfl | ⟨writes, reads, -, rfl⟩ | ⟨id, rfl⟩ |
    ⟨target, steps, rfl⟩ | ⟨id, rfl⟩
  · exact ⟨none, hbeside.aside.requests⟩
  · exact ⟨none, f.aside_readerTurn.requests⟩
  · exact ⟨none, .refl _ _⟩
  · cases he : f.jobs.get? id with
    | none =>
      rw [workerTurn_of_none he]
      exact ⟨none, .refl _ _⟩
    | some e => exact ⟨some id, (workerTurn_works he (hf.ids id e he)).workerFrame.requests⟩
  · rcases f.submit_new target steps with ⟨fault, m, hsubmit, -⟩ |
      ⟨job, tx, m, agenda, -, hsubmit, -⟩ <;>
    · rw [hsubmit]
      exact ⟨none, .refl _ _⟩
  · exact ⟨some id, (f.ran_stop id).requests⟩

/-- One step of a run in which anybody may write anything, and in which a stop may come in two
strokes. -/
inductive Loose (f : Fleet) : Fleet → Prop
  | step {g : Fleet} (h : Step (fun _ => True) f g) : Loose f g
  | fine {g : Fleet} (h : Fine f g) : Loose f g

/-- A row of such steps. -/
abbrev LooseRun : Fleet → Fleet → Prop := Relation.ReflTransGen Loose

/-- A run in which nobody else writes job records is one in which anybody may write anything. -/
theorem FineRun.loose (h : FineRun f g) : LooseRun f g :=
  Relation.ReflTransGen.mono (fun _ _ => Loose.fine) _ _ h

/-- A run in which a stop is one stroke is one in which it may come in two. -/
theorem looseRun_of_run (h : Run (fun _ => True) f g) : LooseRun f g :=
  Relation.ReflTransGen.mono (fun _ _ => Loose.step) _ _ h

/-- Every step leads to what a step may, whoever writes and however a stop comes. -/
theorem Loose.leads (h : Loose f g) (hf : f.Rooted) : Leads f g := by
  cases h with
  | step h => exact h.leads hf
  | fine h =>
    cases h with
    | step h => exact h.leads hf
    | claim htracked hphase =>
      exact ⟨rfl, rfl, Nat.le_refl _, Nat.le_refl _, hf.callers, fun hann => hann,
        jobEffect_set (get?_of_tracked? htracked).1 (.claimed hphase) rfl rfl⟩
    | raise he hclaimed agenda =>
      exact ⟨rfl, rfl, Nat.le_refl _, Nat.le_refl _, hf.callers, fun hann => hann,
        jobEffect_set he (.raised hclaimed) rfl rfl⟩

/-- A step acts for the owner of requests at most. -/
theorem Loose.serves (h : Loose f g) (hf : f.Rooted) :
    ∃ owner, Correlator.Serves owner f.correlator g.correlator := by
  cases h with
  | step h => exact h.serves hf
  | fine h =>
    cases h with
    | step h => exact h.serves hf
    | claim | raise => exact ⟨none, .refl _ _⟩

/-- An entry that is marked was there. -/
theorem mark_of_rel {entry : Option JobEntry} (h : Option.Rel JobEntry.Marked entry (some e')) :
    ∃ e, entry = some e ∧ e.Marked e' := by
  cases h with
  | some hm => exact ⟨_, rfl, hm⟩

/-- Where the entry of a job comes from. -/
theorem JobEffect.origin (h : JobEffect id f g) (he' : g.jobs.get? id = some e') :
    (∃ e, f.jobs.get? id = some e ∧
      (e.Marked e' ∨ (e.work f id).Brings f id e e')) ∨
    (f.nextId = id ∧ g.submitted = f.submitted + 1 ∧
      ∃ target steps, e' = .new (Job.new id target steps f.nowMs)) := by
  cases h with
  | beside hentry _ =>
    rw [he'] at hentry
    obtain ⟨e, he, hm⟩ := mark_of_rel hentry
    exact Or.inl ⟨e, he, Or.inl hm⟩
  | turn he he₁ _ hbrings _ =>
    cases he₁.symm.trans he'
    exact Or.inl ⟨_, he, Or.inr hbrings⟩
  | submitted target steps hid hsubmitted he₁ _ =>
    cases he₁.symm.trans he'
    exact Or.inr ⟨hid, hsubmitted, target, steps, rfl⟩

/-- Steps keep every job in its place in the table. -/
theorem Leads.rooted (h : Leads f g) (hf : f.Rooted) : g.Rooted where
  callers := h.callers
  ids id e' he' := by
    rcases (h.effects id).origin he' with ⟨e, he, hm | hbrings⟩ | ⟨-, -, target, steps, rfl⟩
    · rw [hm.same.job]
      exact hf.ids id e he
    · rw [(JobEntry.leaves_of_brings hbrings).id_eq]
      exact hf.ids id e he
    · rfl
  given id e' he' := by
    rcases (h.effects id).origin he' with ⟨e, he, -⟩ | ⟨hid, hsubmitted, -⟩
    · exact Nat.le_trans (hf.given id e he) h.submitted
    · rw [← hid, hsubmitted]
      exact f.toNat_nextId_le

/-- At the start there are no jobs. -/
theorem rooted_opened (config : Config) (store : UnreliableStore) (registry : Registry) :
    (opened config store registry).Rooted := by
  have hf := orderly_opened config store registry
  exact ⟨hf.callers, fun id e he => (hf.heeds id e he).id_eq, hf.given⟩

/-- What stays the same all along a run. -/
structure Steady (f g : Fleet) : Prop where
  config : g.config = f.config
  registry : g.registry = f.registry
  submitted : f.submitted ≤ g.submitted
  sent : f.correlator.sent ≤ g.correlator.sent
  rooted : g.Rooted
  announced : f.Announced → g.Announced

/-- A run leaves the settings as they are, and only adds to counts. -/
theorem LooseRun.steady (h : LooseRun f g) (hf : f.Rooted) : Steady f g := by
  induction h with
  | refl => exact ⟨rfl, rfl, Nat.le_refl _, Nat.le_refl _, hf, fun hann => hann⟩
  | tail _ hlast ih =>
    have hleads := hlast.leads ih.rooted
    exact ⟨hleads.config.trans ih.config, hleads.registry.trans ih.registry,
      Nat.le_trans ih.submitted hleads.submitted, Nat.le_trans ih.sent hleads.sent,
      hleads.rooted ih.rooted,
      fun hann => hleads.announced (ih.announced hann)⟩

/-- In every run every job is in its place, whoever writes and however a stop comes. -/
theorem LooseRun.rooted {config : Config} {store : UnreliableStore} {registry : Registry}
    (h : LooseRun (opened config store registry) f) : f.Rooted :=
  (h.steady (rooted_opened config store registry)).rooted

/-- What every step keeps, as long as there are numbers left, holds at every point of a run. -/
theorem LooseRun.preserves {P : Fleet → Prop} {config : Config} {store : UnreliableStore}
    {registry : Registry} (h : LooseRun (opened config store registry) f)
    (hlt : f.submitted < 2 ^ 64) (hopened : P (opened config store registry))
    (hstep : ∀ {f g : Fleet}, f.Rooted → Loose f g → g.submitted < 2 ^ 64 → P f → P g) : P f := by
  induction h with
  | refl => exact hopened
  | tail hrun hlast ih =>
    have hrooted := LooseRun.rooted hrun
    have hbefore := Nat.lt_of_le_of_lt (hlast.leads hrooted).submitted hlt
    exact hstep hrooted hlast hlt (ih hbefore)

/-- A rule that new jobs obey holds of every job at every point of a run. -/
theorem LooseRun.obeys {config : Config} {store : UnreliableStore} {registry : Registry}
    (h : LooseRun (opened config store registry) f) (hrule : JobEntry.Rule P)
    (hnew : ∀ id target steps nowMs, P config registry (.new (Job.new id target steps nowMs)))
    (he : f.jobs.get? id = some e) : P config registry e := by
  have hopened : (opened config store registry).config = config ∧
      (opened config store registry).registry = registry := by
    obtain ⟨agenda, broker, correlating, held, hopened⟩ := opened_eq config store registry
    rw [hopened]
    exact ⟨rfl, rfl⟩
  have hroot := rooted_opened config store registry
  induction h generalizing e with
  | refl =>
    rw [get?_opened] at he
    cases he
  | @tail g f hrun hlast ih =>
    have hsteady := LooseRun.steady hrun hroot
    have hconfig := hsteady.config.trans hopened.1
    have hregistry := hsteady.registry.trans hopened.2
    rcases ((hlast.leads hsteady.rooted).effects id).origin he with
      ⟨e₀, he₀, hm | hbrings⟩ | ⟨-, -, target, steps, rfl⟩
    · exact hrule.marked (ih he₀) hm
    · have hworks := hrule.works g id e₀ e (hsteady.rooted.ids id e₀ he₀) trivial
      rw [hconfig, hregistry] at hworks
      exact hworks (ih he₀) hbrings
    · exact hnew ..

/-- What a rule says of a job goes on being true of it, and its history grows only by what is true
of it. -/
structure Sustains (P : JobEntry → Prop) (id : JobId) (f g : Fleet) : Prop where
  entry : ∃ e, g.jobs.get? id = some e ∧ P e
  history : ∃ later, g.historyOf id = f.historyOf id ++ later ∧
    ∀ r ∈ later, ∃ e, P e ∧ r = (e.snapshot.state, e.snapshot.currentStep)

/-- A step sustains every rule. -/
theorem Leads.sustains (h : Leads f g) (hrule : JobEntry.Rule P) (hf : f.Rooted)
    (he : f.jobs.get? id = some e) (hP : P f.config f.registry e)
    (hlt : g.submitted < 2 ^ 64) : Sustains (P f.config f.registry) id f g := by
  cases h.effects id with
  | beside hentry hhistory =>
    rw [he] at hentry
    generalize hentry' : g.jobs.get? id = entry at hentry
    cases hentry with
    | some hm =>
      exact ⟨⟨_, hentry', hrule.marked hP hm⟩, [], by rw [hhistory, List.append_nil], nofun⟩
  | @turn e₀ e' he₀ he' _ hbrings hshows =>
    cases he₀.symm.trans he
    have hP' := hrule.works f id e e' (hf.ids id e he) trivial hP hbrings
    refine ⟨⟨e', he', hP'⟩, ?_⟩
    cases hshows with
    | unrecorded _ hhistory => exact ⟨[], by rw [hhistory, List.append_nil], nofun⟩
    | recorded hwork hsnapshot hhistory =>
      refine ⟨_, hhistory, fun r hr => ⟨e', hP', ?_⟩⟩
      obtain rfl := List.mem_singleton.1 hr
      rw [hsnapshot]
      rfl
  | submitted target steps hid hsubmitted _ _ =>
    exact (nextId_ne (hf.given id e he) (hsubmitted ▸ hlt) hid).elim

/-- What a rule says of a job at one point of a run is true of it at every later point, as long as
numbers last. -/
theorem LooseRun.sustains (h : LooseRun f g) (hrule : JobEntry.Rule P) (hf : f.Rooted)
    (he : f.jobs.get? id = some e) (hP : P f.config f.registry e)
    (hlt : g.submitted < 2 ^ 64) : Sustains (P f.config f.registry) id f g := by
  induction h with
  | refl => exact ⟨⟨e, he, hP⟩, [], (List.append_nil _).symm, nofun⟩
  | tail hrun hlast ih =>
    have hsteady := LooseRun.steady hrun hf
    have hleads := hlast.leads hsteady.rooted
    obtain ⟨⟨e₁, he₁, hP₁⟩, later, hlater, hall⟩ := ih (Nat.lt_of_le_of_lt hleads.submitted hlt)
    have hlast' := hleads.sustains hrule hsteady.rooted he₁
    rw [hsteady.config, hsteady.registry] at hlast'
    obtain ⟨hentry, more, hmore, hall'⟩ := hlast' hP₁ hlt
    refine ⟨hentry, later ++ more, by rw [hmore, hlater, List.append_assoc], fun r hr => ?_⟩
    rcases List.mem_append.1 hr with hold | hnew
    · exact hall r hold
    · exact hall' r hnew

end Fleet

end Flotilla
