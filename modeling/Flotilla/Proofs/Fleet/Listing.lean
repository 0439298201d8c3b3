import Flotilla.Proofs.Fleet.Numbers
import Flotilla.Proofs.Fleet.Parting
import Flotilla.Proofs.Fleet.Queueing
import Flotilla.Proofs.Payload
import Flotilla.Proofs.Store.Contents
import Mathlib.Data.List.Sort

/-!
# What a fleet says of its jobs

A fleet answers for a job from its snapshot as long as it tracks it, and from the store once the job
is archived. Over a store that had no job records both tell the same: all jobs that were accepted
are listed in the order of their numbers, each as its status says and with the record that the store
has (`Fleet.list_agrees_with_status`). Archiving a job changes none of these answers.
-/

namespace Flotilla

private theorem Table.mem_values_iff {κ : Type} {α : Type} [DecidableEq κ] (t : Table κ α) (v : α) :
    v ∈ t.values ↔ ∃ k, t.get? k = some v := by
  constructor
  · intro hv
    obtain ⟨⟨k, w⟩, hmem, rfl⟩ := List.mem_map.1 hv
    exact ⟨k, (get?_eq_some_iff t k w).2 hmem⟩
  · rintro ⟨k, hk⟩
    exact List.mem_map_of_mem (f := Prod.snd) ((get?_eq_some_iff t k v).1 hk)

/-- Where every element has a value, the values come back together. -/
theorem exists_mapM_eq_ok {α β ε : Type} {k : α → Except ε β} {l : List α}
    (h : ∀ x ∈ l, ∃ y, k x = .ok y) :
    ∃ ys, l.mapM k = .ok ys ∧ ∀ y, y ∈ ys ↔ ∃ x ∈ l, k x = .ok y := by
  induction l with
  | nil =>
    refine ⟨[], rfl, fun y => ⟨nofun, ?_⟩⟩
    rintro ⟨x, hx, -⟩
    cases hx
  | cons x l ih =>
    obtain ⟨y, hy⟩ := h x List.mem_cons_self
    obtain ⟨ys, hys, hmem⟩ := ih fun x' hx' => h x' (List.mem_cons_of_mem _ hx')
    refine ⟨y :: ys, ?_, fun z => ?_⟩
    · rw [List.mapM_cons, hy, hys]
      rfl
    · simp only [List.mem_cons, exists_eq_or_imp, hmem, hy, Except.ok.injEq]
      exact or_congr_left eq_comm

namespace JobEntry

variable {e e' : JobEntry} {f : Fleet} {id : JobId}

/-- A job as it is shown: its snapshot while it is tracked, and what its record tells once it is
archived. -/
def shown (e : JobEntry) : Job := if e.archived then e.snapshot.recorded else e.snapshot

private theorem id_shown (e : JobEntry) : e.shown.id = e.snapshot.id := by
  unfold shown
  split <;> rfl

private theorem toRecord_shown (e : JobEntry) : e.shown.toRecord = e.snapshot.toRecord := by
  unfold shown
  split
  · exact e.snapshot.toRecord_recorded
  · rfl

private theorem Marked.archived (h : e.Marked e') : e'.archived = e.archived := by
  cases h with
  | asked h => rcases h with rfl | ⟨-, rfl⟩ <;> rfl
  | claimed => rfl
  | raised => rfl

end JobEntry

namespace Fleet

variable {f g : Fleet} {id : JobId} {e : JobEntry} {config : Config} {store : UnreliableStore}
  {registry : Registry} {answers : List (Except Fault JobId)}

/-- What is known of a job. -/
def known? (f : Fleet) (id : JobId) : Option Job := (f.jobs.get? id).map JobEntry.shown

/-- The store can be read. -/
structure Readable (f : Fleet) : Prop where
  scan : (f.scan Job.keyRoot).1.isOk = true
  read : ∀ id, (f.read (Job.key id)).1.isOk = true

/-- Every job is on record, and there is no other job record; and all of them can be read. -/
structure AllOnRecord (f : Fleet) : Prop where
  ids : ∀ id e, f.jobs.get? id = some e → e.snapshot.id = id
  records : ∀ id e, f.jobs.get? id = some e → ∃ version,
    f.transactions.store.store.read (Job.key id) = some ⟨e.snapshot.toRecord.toBytes, version⟩
  decoded : ∀ id e, f.jobs.get? id = some e →
    decodeJob e.snapshot.toRecord.toBytes = .ok e.snapshot.recorded
  own : ∀ key, IsJobKey key → f.transactions.store.store.read key = none ∨
    ∃ id e, key = Job.key id ∧ f.jobs.get? id = some e
  readable : f.Readable

/-- Whatever is known under a number has it. -/
theorem AllOnRecord.known?_id (hf : f.AllOnRecord) {job : Job} (h : f.known? id = some job) :
    job.id = id := by
  obtain ⟨e, he, rfl⟩ := Option.map_eq_some_iff.1 h
  rw [e.id_shown, hf.ids id e he]

/-- The record of a job is there exactly if the job is. -/
theorem AllOnRecord.read_eq_none (hf : f.AllOnRecord) (h : f.jobs.get? id = none) :
    f.transactions.store.store.read (Job.key id) = none := by
  refine (hf.own _ (isJobKey_key id)).resolve_right ?_
  rintro ⟨other, e, hkey, he⟩
  cases Job.key_inj hkey
  cases h.symm.trans he

/-- What is stored of a job is its snapshot, as recorded. -/
theorem AllOnRecord.persisted (hf : f.AllOnRecord) (id : JobId) :
    (f.persisted id).1 = .ok ((f.jobs.get? id).map fun e => e.snapshot.recorded) := by
  rw [persisted_of_isOk (hf.readable.read id)]
  cases he : f.jobs.get? id with
  | none =>
    rw [hf.read_eq_none he]
    rfl
  | some e =>
    obtain ⟨version, hrecord⟩ := hf.records id e he
    rw [hrecord, Option.elim_some, hf.decoded id e he]
    rfl

private theorem tracked?_of_get? (he : f.jobs.get? id = some e) :
    f.tracked? id = if e.archived then none else some e := by
  rw [tracked?, he]
  cases harchived : e.archived <;> simp [harchived]

/-- The status of a job is what is known of it. -/
theorem AllOnRecord.status (hf : f.AllOnRecord) (id : JobId) :
    (f.status id).1 = (f.known? id).elim (.error (.jobNotFound id)) .ok := by
  have huntracked (htracked : f.tracked? id = none) :=
    status_of_untracked htracked (hf.readable.read id)
  cases he : f.jobs.get? id with
  | none =>
    rw [huntracked (tracked?_of_absent he), hf.read_eq_none he, known?, he]
    rfl
  | some e =>
    obtain ⟨version, hrecord⟩ := hf.records id e he
    have htracked := tracked?_of_get? he
    rw [known?, he, Option.map_some, Option.elim_some, JobEntry.shown]
    cases harchived : e.archived with
    | true =>
      rw [harchived, if_pos rfl] at htracked
      rw [huntracked htracked, hrecord, Option.elim_some, hf.decoded id e he]
      rfl
    | false =>
      rw [harchived, if_neg Bool.false_ne_true] at htracked
      rw [Fleet.status, htracked]
      rfl

/-- Whoever waits for a job whose worker has left learns its end, or that none is on record. -/
theorem AllOnRecord.wait (hf : f.AllOnRecord) (he : f.jobs.get? id = some e) (hparted : e.Parted)
    (hdone : e.done = true) : (f.wait id).1 = some (if e.snapshot.isTerminal then .ok e.shown
      else .error (.commitFailure ("job " ++ Text.decimal id.toNat ++
        " ended without a committed terminal state (last committed: " ++
        e.snapshot.state.name ++ ")"))) := by
  have htracked := tracked?_of_get? he
  rw [Fleet.wait, htracked, JobEntry.shown]
  cases harchived : e.archived with
  | true =>
    have hpersisted := hf.persisted id
    rw [he, Option.map_some] at hpersisted
    rw [if_pos rfl, if_pos rfl, if_pos (hparted.archived_iff.1 harchived).2]
    dsimp only
    rw [archivedEnd]
    generalize f.persisted id = r at hpersisted ⊢
    obtain ⟨result, f'⟩ := r
    dsimp only at hpersisted
    subst hpersisted
    dsimp only
    rw [if_pos]
    exact (hparted.archived_iff.1 harchived).2
  | false =>
    have hopen : e.snapshot.isTerminal = false := by
      by_contra hend
      have hleft := hparted.archived_iff.2 ⟨hdone, Bool.of_not_eq_false hend⟩
      cases hleft.symm.trans harchived
    have hended : (f.jobs.get? id).any JobEntry.done = true := by
      rw [he]
      exact hdone
    rw [if_neg Bool.false_ne_true, if_neg Bool.false_ne_true]
    dsimp only
    rw [if_pos hended, he, Option.filter_some, if_pos hdone]
    dsimp only
    rw [trackedEnd, hopen, hf.ids id e he]

/-- The jobs that are tracked are those that are not archived. -/
theorem mem_tracked_iff {job : Job} :
    job ∈ (f.jobs.values.filter fun e => !e.archived).map JobEntry.snapshot ↔
      ∃ id e, f.jobs.get? id = some e ∧ e.archived = false ∧ job = e.snapshot := by
  constructor
  · intro hjob
    obtain ⟨e, he, rfl⟩ := List.mem_map.1 hjob
    obtain ⟨hmem, harchived⟩ := List.mem_filter.1 he
    obtain ⟨id, hid⟩ := (f.jobs.mem_values_iff e).1 hmem
    exact ⟨id, e, hid, by simpa using harchived, rfl⟩
  · rintro ⟨id, e, he, harchived, rfl⟩
    refine List.mem_map_of_mem (List.mem_filter.2 ⟨(f.jobs.mem_values_iff e).2 ⟨id, he⟩, ?_⟩)
    rw [harchived]
    rfl

/-- The job that is listed under a number is the one that is known. -/
theorem AllOnRecord.get?_byId (hf : f.AllOnRecord) {stored : List Job}
    (hstored : ∀ job, job ∈ stored ↔ ∃ id e, f.jobs.get? id = some e ∧
      e.snapshot.recorded = job) (id : JobId) :
    (Table.ofList ((stored ++ (f.jobs.values.filter fun e => !e.archived).map
      JobEntry.snapshot).map fun job => (job.id, job))).get? id = f.known? id := by
  have hpair {l : List Job} {job : Job} :
      (id, job) ∈ l.map (fun job => (job.id, job)) ↔ job ∈ l ∧ job.id = id := by
    constructor
    · intro h
      obtain ⟨job', hmem, hsame⟩ := List.mem_map.1 h
      cases hsame
      exact ⟨hmem, rfl⟩
    · rintro ⟨hmem, rfl⟩
      exact List.mem_map_of_mem hmem
  have hin {job : Job} (h : job ∈ stored) (hid : job.id = id) :
      ∃ e, f.jobs.get? id = some e ∧ job = e.snapshot.recorded := by
    obtain ⟨other, e, he, rfl⟩ := (hstored job).1 h
    obtain rfl : other = id := (hf.ids other e he).symm.trans hid
    exact ⟨e, he, rfl⟩
  have hlive {job : Job} (h : job ∈ (f.jobs.values.filter fun e => !e.archived).map
      JobEntry.snapshot) (hid : job.id = id) :
      ∃ e, f.jobs.get? id = some e ∧ e.archived = false ∧ job = e.snapshot := by
    obtain ⟨other, e, he, harchived, rfl⟩ := mem_tracked_iff.1 h
    obtain rfl : other = id := (hf.ids other e he).symm.trans hid
    exact ⟨e, he, harchived, rfl⟩
  -- Snapshots come after records, so they are found first; an archived job has none.
  rw [List.map_append, Table.get?_ofList_append, known?]
  cases he : f.jobs.get? id with
  | none =>
    rw [Table.get?_ofList_eq_none, Table.get?_ofList_eq_none]
    · rfl
    · intro job hjob
      obtain ⟨e, he', -⟩ := hin (hpair.1 hjob).1 (hpair.1 hjob).2
      cases he.symm.trans he'
    · intro job hjob
      obtain ⟨e, he', -⟩ := hlive (hpair.1 hjob).1 (hpair.1 hjob).2
      cases he.symm.trans he'
  | some e =>
    rw [Option.map_some, JobEntry.shown]
    cases harchived : e.archived with
    | true =>
      rw [Table.get?_ofList_eq_none, Option.none_or, if_pos rfl]
      · refine Table.get?_ofList_eq_some
          (hpair.2 ⟨(hstored _).2 ⟨id, e, he, rfl⟩, hf.ids id e he⟩) fun job hjob => ?_
        obtain ⟨e', he', rfl⟩ := hin (hpair.1 hjob).1 (hpair.1 hjob).2
        cases he.symm.trans he'
        rfl
      · intro job hjob
        obtain ⟨e', he', hthere, -⟩ := hlive (hpair.1 hjob).1 (hpair.1 hjob).2
        cases he.symm.trans he'
        cases hthere.symm.trans harchived
    | false =>
      rw [Table.get?_ofList_eq_some (v := e.snapshot), Option.some_or,
        if_neg Bool.false_ne_true]
      · exact hpair.2 ⟨mem_tracked_iff.2 ⟨id, e, he, harchived, rfl⟩, hf.ids id e he⟩
      · intro job hjob
        obtain ⟨e', he', -, rfl⟩ := hlive (hpair.1 hjob).1 (hpair.1 hjob).2
        cases he.symm.trans he'
        rfl

/-- The jobs that are known are listed in the order of their numbers. -/
theorem AllOnRecord.overlay (hf : f.AllOnRecord) {stored : List Job}
    (hstored : ∀ job, job ∈ stored ↔ ∃ id e, f.jobs.get? id = some e ∧
      e.snapshot.recorded = job) :
    (f.overlay stored).Pairwise (fun a b => a.id < b.id) ∧
      ∀ job, job ∈ f.overlay stored ↔ f.known? job.id = some job := by
  unfold Fleet.overlay
  extract_lets tracked byId
  have hget (id : JobId) : byId.get? id = f.known? id := hf.get?_byId hstored id
  have hmem (job : Job) : job ∈ byId.values ↔ f.known? job.id = some job := by
    rw [byId.mem_values_iff]
    constructor
    · rintro ⟨id, hid⟩
      rw [hget] at hid
      rwa [hf.known?_id hid]
    · exact fun hjob => ⟨job.id, (hget _).trans hjob⟩
  have hids : byId.values.map Job.id = byId.keys := by
    rw [Table.values, Table.keys, List.map_map]
    refine List.map_congr_left fun entry hentry => ?_
    exact hf.known?_id ((hget _).symm.trans ((byId.get?_eq_some_iff _ _).2 hentry))
  have hsorted : (byId.values.mergeSort fun a b => a.id ≤ b.id).Pairwise
      fun a b => decide (a.id ≤ b.id) = true := by
    refine List.pairwise_mergeSort (fun a b c hab hbc => ?_) (fun a b => ?_) _
    · rw [decide_eq_true_eq] at *
      exact UInt64.le_trans hab hbc
    · rw [Bool.or_eq_true, decide_eq_true_eq, decide_eq_true_eq]
      exact UInt64.le_total a.id b.id
  have hnodup : (byId.values.mergeSort fun a b => a.id ≤ b.id).Pairwise fun a b => a.id ≠ b.id := by
    refine List.pairwise_map.1 (((List.mergeSort_perm _ _).map Job.id).nodup_iff.2 ?_)
    rw [hids]
    exact byId.nodup
  refine ⟨hsorted.imp₂ (fun a b hle hne => ?_) hnodup, fun job => ?_⟩
  · exact UInt64.lt_of_le_of_ne (of_decide_eq_true hle) hne
  · rw [List.mem_mergeSort, hmem]

/-- The list has exactly the known jobs, in the order of their numbers. -/
theorem AllOnRecord.list (hf : f.AllOnRecord) :
    ∃ jobs, (f.list).1 = .ok jobs ∧ jobs.Pairwise (fun a b => a.id < b.id) ∧
      ∀ job, job ∈ jobs ↔ f.known? job.id = some job := by
  have hscan := hf.readable.scan
  have hrecords (entry : String × Record)
      (h : entry ∈ f.transactions.store.store.scan Job.keyRoot) :
      ∃ id e, f.jobs.get? id = some e ∧ entry.1 = Job.key id ∧
        decodeJob entry.2.value = .ok e.snapshot.recorded := by
    obtain ⟨hread, hkey⟩ := Store.mem_scan_iff.1 h
    rcases hf.own entry.1 hkey with hnone | ⟨id, e, hid, he⟩
    · cases hnone.symm.trans hread
    · obtain ⟨version, hrecord⟩ := hf.records id e he
      rw [← hid, hread] at hrecord
      refine ⟨id, e, he, hid, ?_⟩
      rw [Option.some.inj hrecord]
      exact hf.decoded id e he
  obtain ⟨stored, hmapM, hstored⟩ := exists_mapM_eq_ok
    (k := fun r : String × Record => decodeJob r.2.value) fun entry hentry => by
      obtain ⟨id, e, -, -, hdecoded⟩ := hrecords entry hentry
      exact ⟨_, hdecoded⟩
  have hjobs (job : Job) : job ∈ stored ↔ ∃ id e, f.jobs.get? id = some e ∧
      e.snapshot.recorded = job := by
    rw [hstored]
    constructor
    · rintro ⟨entry, hentry, hjob⟩
      obtain ⟨id, e, he, -, hdecoded⟩ := hrecords entry hentry
      exact ⟨id, e, he, Except.ok.inj (hdecoded.symm.trans hjob)⟩
    · rintro ⟨id, e, he, rfl⟩
      obtain ⟨version, hrecord⟩ := hf.records id e he
      have hentry : (Job.key id, ⟨e.snapshot.toRecord.toBytes, version⟩) ∈
          f.transactions.store.store.scan Job.keyRoot :=
        Store.mem_scan_iff.2 ⟨hrecord, isJobKey_key id⟩
      exact ⟨_, hentry, hf.decoded id e he⟩
  obtain ⟨hsorted, hmem⟩ := hf.overlay hjobs
  refine ⟨f.overlay stored, ?_, hsorted, hmem⟩
  unfold Fleet.list Fleet.scan at *
  dsimp only at *
  cases hresult : (f.transactions.store.scan Job.keyRoot).1 with
  | error fault =>
    rw [hresult] at hscan
    cases hscan
  | ok records =>
    rw [UnreliableStore.scan_eq_of_ok hresult]
    dsimp only
    rw [hmapM]
    rfl

/-- In every run that starts from a store without job records, all jobs are on record. -/
theorem FineRun.allOnRecord (hregistry : registry.Spares)
    (hempty : ∀ key, IsJobKey key → store.store.read key = none)
    (hrun : FineRun (opened config store registry) f)
    (hlength : ∀ id e, f.jobs.get? id = some e → e.snapshot.toRecord.toBytes.length < 2 ^ 64)
    (hreadable : f.Readable) : f.AllOnRecord := by
  have hpublished := hrun.published hregistry
  refine ⟨fun id e he => (hpublished.snapshot id e he).1, fun id e he => ?_, fun id e he =>
    (records_toBytes e.snapshot).decoded (hlength id e he), fun key hkey => ?_, hreadable⟩
  · have hrecord := (hpublished.told id).read
    rw [(hpublished.snapshot id e he).2, Option.map_some, Option.some_or] at hrecord
    exact ⟨_, hrecord⟩
  · exact (hrun.read_cases hregistry hkey).imp_left fun hsame => hsame.trans (hempty key hkey)

/-- The numbers of the list are those of the submits that were accepted, in their order. -/
theorem ids_of_list (h : Enrolled answers f) (hf : f.AllOnRecord) {jobs : List Job}
    (hsorted : jobs.Pairwise fun a b => a.id < b.id)
    (hmem : ∀ job, job ∈ jobs ↔ f.known? job.id = some job) :
    jobs.map Job.id = accepted answers := by
  refine List.Pairwise.eq_of_mem_iff (List.pairwise_map.2 hsorted) h.pairwise fun id => ?_
  rw [mem_accepted_iff, ← h.jobs id, List.mem_map]
  constructor
  · rintro ⟨job, hjob, rfl⟩
    obtain ⟨e, he, -⟩ := Option.map_eq_some_iff.1 ((hmem job).1 hjob)
    exact ⟨e, he⟩
  · rintro ⟨e, he⟩
    have hknown : f.known? id = some e.shown := by rw [known?, he, Option.map_some]
    have hid := hf.known?_id hknown
    exact ⟨e.shown, (hmem e.shown).2 (hid ▸ hknown), hid⟩

/-- A job is archived in the turn in which its worker leaves with the end of the job on record, and
in no other step. -/
theorem Fine.leaving_of_archived (h : Fine f g) (hf : f.Rooted) (htracked : f.tracked? id = some e)
    (hparted : ∀ e', g.jobs.get? id = some e' → e'.Parted) (huntracked : g.tracked? id = none) :
    e.snapshot.isTerminal = true ∧
      ∃ result, e.stage = .leaving result ∧ g = (f.workerTurn id).fleet := by
  obtain ⟨he, hthere⟩ := get?_of_tracked? htracked
  have harchived (e' : JobEntry) (he' : g.jobs.get? id = some e') : e'.archived = true := by
    by_contra hnot
    rw [tracked?_of_get? he', if_neg hnot] at huntracked
    cases huntracked
  cases ((Loose.fine h).leads hf).effects id with
  | beside hentry _ =>
    rw [he] at hentry
    cases he' : g.jobs.get? id with
    | none =>
      rw [he'] at hentry
      cases hentry
    | some e' =>
      rw [he'] at hentry
      cases hentry with
      | some hmarked =>
        have hkept : e'.archived = e.archived := hmarked.archived
        cases (harchived e' he').symm.trans (hkept.trans hthere)
  | @turn e₁ e' he₁ he' hturn hbrings _ =>
    cases he.symm.trans he₁
    have hp := hparted e' he'
    obtain ⟨hdone, hterminal⟩ := hp.archived_iff.1 (harchived e' he')
    rcases JobEntry.permitted_or_left_of_brings hbrings with
      hpermitted | rfl | ⟨result, hstage, rfl⟩
    · rw [hp.done_iff.1 hdone] at hpermitted
      exact hpermitted.elim
    · cases (harchived _ he').symm.trans hthere
    · exact ⟨hterminal, result, hstage, hturn⟩
  | submitted target steps _ _ he' => cases harchived _ he'

/-- A worker that leaves changes neither the store nor what is public of any job. -/
theorem leaves_workerTurn (he : f.jobs.get? id = some e) (hid : e.job.id = id)
    {result : Except Fault Unit} (hstage : e.stage = .leaving result) :
    (f.workerTurn id).fleet.transactions = f.transactions ∧
    (f.workerTurn id).fleet.submitted = f.submitted ∧
    ∀ job, ((f.workerTurn id).fleet.jobs.get? job).map JobEntry.snapshot =
      (f.jobs.get? job).map JobEntry.snapshot := by
  have hworks := workerTurn_works he hid
  rw [JobEntry.work, hstage] at hworks
  dsimp only at hworks
  generalize (f.workerTurn id).fleet = g at hworks ⊢
  cases hworks with
  | change agenda permits =>
    refine ⟨rfl, rfl, fun job => ?_⟩
    dsimp only
    rw [Table.get?_set]
    split
    · next hjob =>
      subst hjob
      rw [he]
      rfl
    · rfl

/-- One fleet gives the same answers as another, as far as records of jobs tell. -/
structure SameAnswers (f g : Fleet) : Prop where
  list : (g.list).1.map (List.map Job.toRecord) = (f.list).1.map (List.map Job.toRecord)
  status : ∀ id, (g.status id).1.map Job.toRecord = (f.status id).1.map Job.toRecord
  persisted : ∀ id, (g.persisted id).1 = (f.persisted id).1

private theorem map_toRecord_known? (f : Fleet) (id : JobId) :
    (f.known? id).map Job.toRecord =
      ((f.jobs.get? id).map JobEntry.snapshot).map Job.toRecord := by
  rw [known?, Option.map_map, Option.map_map]
  exact congrArg (Option.map · (f.jobs.get? id)) (funext JobEntry.toRecord_shown)

private theorem map_toRecord_eq {jobs : List Job} (h : ∀ job ∈ jobs, f.known? job.id = some job) :
    jobs.map Job.toRecord = (jobs.map Job.id).filterMap fun id =>
      (f.known? id).map Job.toRecord := by
  rw [List.filterMap_map, ← List.filterMap_eq_map]
  refine List.filterMap_congr fun job hjob => ?_
  rw [Function.comp_apply, Function.comp_apply, h job hjob]
  rfl

/-- What is said of jobs depends on their snapshots only. -/
theorem sameAnswers_of_snapshots (hf : f.AllOnRecord) (hg : g.AllOnRecord)
    (hef : Enrolled answers f)
    (heg : Enrolled answers g) (hsnapshots : ∀ id, (g.jobs.get? id).map JobEntry.snapshot =
      (f.jobs.get? id).map JobEntry.snapshot) : SameAnswers f g := by
  have hknown (id : JobId) :
      (g.known? id).map Job.toRecord = (f.known? id).map Job.toRecord := by
    rw [map_toRecord_known?, map_toRecord_known?, hsnapshots]
  refine ⟨?_, fun id => ?_, fun id => ?_⟩
  · obtain ⟨jobs, hlist, hsorted, hmem⟩ := hf.list
    obtain ⟨jobs', hlist', hsorted', hmem'⟩ := hg.list
    rw [hlist, hlist']
    refine congrArg Except.ok ?_
    rw [map_toRecord_eq fun job hjob => (hmem job).1 hjob,
      map_toRecord_eq fun job hjob => (hmem' job).1 hjob, ids_of_list hef hf hsorted hmem,
      ids_of_list heg hg hsorted' hmem']
    exact List.filterMap_congr fun id _ => hknown id
  · have hsame := hknown id
    rw [hf.status, hg.status]
    generalize f.known? id = known at hsame
    generalize g.known? id = known' at hsame
    cases known <;> cases known'
    · rfl
    · cases hsame
    · cases hsame
    · exact congrArg Except.ok (Option.some.inj hsame)
  · rw [hf.persisted, hg.persisted]
    refine congrArg Except.ok ?_
    have hsame := congrArg (Option.map Job.recorded) (hsnapshots id)
    rw [Option.map_map, Option.map_map] at hsame
    exact hsame

/-- The ways to ask for a job agree on it, as far as its record tells. Whoever waits for it after
its worker has left gets the job if its record shows its end, and otherwise learns that there is
none. -/
structure Agreed (f : Fleet) (job stored : Job) : Prop where
  status : (f.status job.id).1 = .ok job
  persisted : (f.persisted job.id).1 = .ok (some stored)
  record : stored.toRecord = job.toRecord
  wait : ∀ e, f.jobs.get? job.id = some e → e.done = true →
    (f.wait job.id).1 = some (if stored.isTerminal then .ok job else
      .error (.commitFailure ("job " ++ Text.decimal job.id.toNat ++
        " ended without a committed terminal state (last committed: " ++ stored.state.name ++
        ")")))

/-- List, status, record and outcome agree on every known job. -/
theorem AllOnRecord.agreed (hf : f.AllOnRecord)
    (hparted : ∀ id e, f.jobs.get? id = some e → e.Parted)
    {job : Job} (h : f.known? job.id = some job) : ∃ stored, Agreed f job stored := by
  obtain ⟨e, he, hshown⟩ := Option.map_eq_some_iff.1 h
  refine ⟨e.snapshot.recorded, ?_, ?_, ?_, fun e' he' hdone => ?_⟩
  · rw [hf.status, h]
    rfl
  · rw [hf.persisted, he]
    rfl
  · rw [e.snapshot.toRecord_recorded, ← hshown, e.toRecord_shown]
  · cases he.symm.trans he'
    rw [hf.wait he (hparted _ e he) hdone, hshown]
    rfl

/-- At every point of every run over a store that held no job records, the jobs that are listed are
those of the submits that were accepted, in the order of their numbers; submits get numbers one
after the other, and one that is refused uses up its own. Of each job the list, the status and the
record tell the same, and whoever waits for it after its worker has left learns what the record
says. A step in which a job is archived changes none of these answers. -/
theorem list_agrees_with_status (hregistry : registry.Spares)
    (hempty : ∀ key, IsJobKey key → store.store.read key = none)
    (hrun : Answered (opened config store registry) answers f) (hlt : f.submitted < 2 ^ 64)
    (hlength : ∀ id e, f.jobs.get? id = some e → e.snapshot.toRecord.toBytes.length < 2 ^ 64)
    (hreadable : f.Readable) :
    (∃ jobs, (f.list).1 = .ok jobs ∧ jobs.map Job.id = accepted answers ∧
      ∀ job ∈ jobs, ∃ stored, Agreed f job stored) ∧
    (accepted answers).Pairwise (· < ·) ∧
    (∀ i id, answers[i]? = some (.ok id) → id.toNat = i + 1) ∧
    ∀ g id e, Fine f g → f.tracked? id = some e → g.tracked? id = none →
      e.snapshot.isTerminal = true ∧ SameAnswers f g := by
  have henrolled := hrun.enrolled hlt
  have hrecords := hrun.run.allOnRecord hregistry hempty hlength hreadable
  have hparted (id : JobId) (e : JobEntry) (he : f.jobs.get? id = some e) : e.Parted :=
    (LooseRun.parted hrun.run.loose he).2
  refine ⟨?_, henrolled.pairwise, henrolled.numbers,
    fun g id e hstep htracked huntracked => ?_⟩
  · obtain ⟨jobs, hlist, hsorted, hmem⟩ := hrecords.list
    exact ⟨jobs, hlist, ids_of_list henrolled hrecords hsorted hmem, fun job hjob =>
      hrecords.agreed hparted ((hmem job).1 hjob)⟩
  · have hrooted := hrun.run.loose.rooted
    have hparted' (e' : JobEntry) (he' : g.jobs.get? id = some e') : e'.Parted :=
      (LooseRun.parted (hrun.run.loose.tail (.fine hstep)) he').2
    obtain ⟨hterminal, result, hstage, rfl⟩ :=
      hstep.leaving_of_archived hrooted htracked hparted' huntracked
    have he := (get?_of_tracked? htracked).1
    have hid := hrooted.ids id e he
    obtain ⟨htransactions, hsubmitted, hsnapshots⟩ := leaves_workerTurn he hid hstage
    have hreadable' : (f.workerTurn id).fleet.Readable := by
      refine ⟨?_, fun job => ?_⟩
      · change (((f.workerTurn id).fleet.transactions.store.scan Job.keyRoot).1.isOk) = true
        rw [htransactions]
        exact hreadable.scan
      · change (((f.workerTurn id).fleet.transactions.store.read (Job.key job)).1.isOk) = true
        rw [htransactions]
        exact hreadable.read job
    have hrun' := hrun.other hstep hsubmitted
    have hrecords' := hrun'.run.allOnRecord hregistry hempty (fun job e' he' => by
      have hsame := hsnapshots job
      rw [he', Option.map_some] at hsame
      obtain ⟨e₁, he₁, hsnapshot⟩ := Option.map_eq_some_iff.1 hsame.symm
      rw [← hsnapshot]
      exact hlength job e₁ he₁) hreadable'
    exact ⟨hterminal, sameAnswers_of_snapshots hrecords hrecords' henrolled
      (hrun'.enrolled (hsubmitted ▸ hlt)) hsnapshots⟩

/-- A fleet whose store refuses the second commit, at its start. -/
def openedListed : Fleet :=
  let outage : Outage := ⟨.commit, some 2, none, none, none, .commitFailure "disk full"⟩
  opened .standard (.new [outage]) .empty

/-- That fleet when the first of three jobs is archived, the second one was refused, and the third
one has completed and is about to be archived. -/
def listedFleet : Fleet :=
  (((openedListed.submit "edge-1" []).2.submit "edge-2" []).2.submit "edge-3" []).2.turns
    (List.replicate 5 (.worker 1) ++ List.replicate 4 (.worker 3))

/-- It has answered three submits, the second of them with a failure. -/
theorem answered_listedFleet :
    Answered openedListed [.ok 1, .error (.commitFailure "disk full"), .ok 3] listedFleet := by
  have hstart : Answered openedListed [] openedListed := .start
  have hsubmits := ((hstart.submit "edge-1" []).submit "edge-2" []).submit "edge-3" []
  exact hsubmits.extend (rooted_opened ..) (fineRun_turns _ _) rfl

/-- The first and the third job are listed, before the third one is archived and afterwards. Whoever
waits for the first one gets it. -/
theorem list_agrees_with_status_listedFleet :
    (∃ jobs, (listedFleet.list).1 = .ok jobs ∧ jobs.map Job.id = [1, 3] ∧
      ∀ job ∈ jobs, ∃ stored, Agreed listedFleet job stored) ∧
    (∃ e, listedFleet.jobs.get? 1 = some e ∧ e.done = true ∧ e.archived = true) ∧
    SameAnswers listedFleet (listedFleet.workerTurn 3).fleet := by
  have hlengths : ∀ entry ∈ listedFleet.jobs.entries,
      entry.2.snapshot.toRecord.toBytes.length < 2 ^ 64 := by decide +kernel
  obtain ⟨hlist, -, -, harchives⟩ := list_agrees_with_status Registry.spares_empty (fun _ _ => rfl)
    answered_listedFleet (by decide)
    (fun id e he => hlengths (id, e) ((Table.get?_eq_some_iff _ _ _).1 he)) ⟨rfl, fun _ => rfl⟩
  have hturn : Fine listedFleet (listedFleet.workerTurn 3).fleet := .step (.turn (.worker 3))
  have htracked : ∃ e, listedFleet.tracked? 3 = some e := ⟨_, rfl⟩
  obtain ⟨e, he⟩ := htracked
  exact ⟨hlist, ⟨_, rfl, rfl, rfl⟩, (harchives _ 3 e hturn he rfl).2⟩

end Fleet

end Flotilla
