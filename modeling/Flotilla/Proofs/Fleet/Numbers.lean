import Flotilla.Proofs.Fleet.JobHistory

/-!
# The numbers of jobs

A fleet counts its jobs from one on, whatever its store holds: submits get numbers one after the
other, and one that is refused uses up its own (`Fleet.Enrolled`). While nobody else writes job
records, every record is that of a job of the fleet, or was there when the fleet was opened
(`Fleet.FineRun.read_cases`). So a job that is submitted gets a number that no other job of the
fleet has, but its record takes the place of whatever the store held under that number at the start
(`Fleet.enrols_run`): a fleet that is opened over the store of an earlier one writes over its jobs
(`Fleet.reopenedFleet_overwrites`).
-/

namespace Flotilla.Fleet

variable {f g : Fleet} {id : JobId} {e : JobEntry} {key : String} {config : Config}
  {store : UnreliableStore} {registry : Registry} {target : String} {steps : List JobStep}
  {answers : List (Except Fault JobId)}

/-- The worker of a job changes no other job record. -/
theorem Works.read_of_ne (hf : f.Fit) (he : f.jobs.get? id = some e)
    (h : f.Works id e (e.work f id) g) (hkey : IsJobKey key) (hne : Job.key id ≠ key) :
    g.transactions.store.store.read key = f.transactions.store.store.read key := by
  have hpreserves := e.preserves_work f id
  have hspares := e.spares_work f id (hf.stages id e he) hf.registry
  generalize e.work f id = work at h hpreserves hspares
  cases h with
  | change e' agenda permits => rfl
  | refused fault m agenda hstore _ => exact congrArg (Store.read · key) hstore
  | @taken job cancels next tx m agenda hstore _ =>
    have hjob : (f.stamped job).id = id := hpreserves.1.trans (hf.ids id e he)
    refine (congrArg (Store.read · key) hstore).trans ?_
    rw [recordOf, Store.read_apply_put, hjob, if_neg hne]
  | @performed run program result g e' before agenda hrun hentry =>
    have hapart := (apart_run id e.job.target hspares.2 { f with agenda := before }).1
    rw [hrun] at hapart
    exact (hapart.records key hkey).1

/-- A step changes no job record but that of a job which is there afterwards. -/
theorem Step.read_cases (h : Step (fun key => ¬IsJobKey key) f g) (hf : f.Fit)
    (hkey : IsJobKey key) :
    g.transactions.store.store.read key = f.transactions.store.store.read key ∨
      ∃ id e, key = Job.key id ∧ g.jobs.get? id = some e := by
  rcases h.split hf.callers with hbeside | rfl | ⟨writes, reads, hwrites, rfl⟩ | ⟨id, rfl⟩ |
    ⟨target, steps, rfl⟩ | ⟨id, rfl⟩
  · exact Or.inl (hbeside.apart.records key hkey).1
  · rw [readerTurn_eq]
    exact Or.inl rfl
  · exact Or.inl (f.transactions.store.commitBehind_of_ne reads
      (WritesSpare.key_ne hwrites hkey)).1
  · cases he : f.jobs.get? id with
    | none =>
      rw [workerTurn_of_none he]
      exact Or.inl rfl
    | some e =>
      have hworks := workerTurn_works he (hf.ids id e he)
      obtain ⟨e', he', -⟩ := hworks.brings he
      by_cases hne : Job.key id = key
      · exact Or.inr ⟨id, e', hne.symm, he'⟩
      · exact Or.inl (hworks.read_of_ne hf he hkey hne)
  · rcases f.submit_cases target steps with ⟨fault, m, hsubmit, hm⟩ |
      ⟨job, tx, m, agenda, hid, -, hsubmit, hm⟩ <;> rw [hsubmit]
    · exact Or.inl (congrArg (Store.read · key) hm)
    · by_cases hne : Job.key f.nextId = key
      · exact Or.inr ⟨f.nextId, .new job, hne.symm, Table.get?_set_self ..⟩
      · refine Or.inl ((congrArg (Store.read · key) hm).trans ?_)
        rw [recordOf, Store.read_apply_put, hid, if_neg hne]
  · exact Or.inl ((f.apart_stop id).records key hkey).1

/-- A step leaves a job record alone, or there is a job that it is of. -/
theorem Fine.read_cases (h : Fine f g) (hf : f.Fit) (hkey : IsJobKey key) :
    g.transactions.store.store.read key = f.transactions.store.store.read key ∨
      ∃ id e, key = Job.key id ∧ g.jobs.get? id = some e := by
  cases h with
  | step h => exact h.read_cases hf hkey
  | claim | raise => exact Or.inl rfl

/-- No job is forgotten. -/
theorem JobEffect.remains (h : JobEffect id f g) (he : f.jobs.get? id = some e) :
    ∃ e', g.jobs.get? id = some e' := by
  cases h with
  | beside hentry _ =>
    rw [he] at hentry
    generalize g.jobs.get? id = entry at hentry
    cases hentry with
    | some => exact ⟨_, rfl⟩
  | turn _ he' => exact ⟨_, he'⟩
  | submitted _ _ _ _ he' => exact ⟨_, he'⟩

/-- Every job record is that of a job of the fleet, or was there when the fleet was opened. -/
theorem FineRun.read_cases (hregistry : registry.Spares)
    (h : FineRun (opened config store registry) f) (hkey : IsJobKey key) :
    f.transactions.store.store.read key = store.store.read key ∨
      ∃ id e, key = Job.key id ∧ f.jobs.get? id = some e := by
  induction h with
  | refl =>
    obtain ⟨agenda, broker, correlating, held, hopened⟩ := opened_eq config store registry
    rw [hopened]
    exact Or.inl rfl
  | tail hrun hlast ih =>
    have hrooted := (FineRun.loose hrun).rooted
    rcases hlast.read_cases (FineRun.published hregistry hrun).fit hkey with hsame | hown
    · rw [hsame]
      refine ih.imp_right ?_
      rintro ⟨id, e, rfl, he⟩
      obtain ⟨e', he'⟩ := (((Loose.fine hlast).leads hrooted).effects id).remains he
      exact ⟨id, e', rfl, he'⟩
    · exact Or.inr hown

/-- A run in which submits got these answers, the earliest first. -/
inductive Answered (s : Fleet) : List (Except Fault JobId) → Fleet → Prop
  | start : Answered s [] s
  | submit {answers : List (Except Fault JobId)} {f : Fleet} (h : Answered s answers f)
    (target : String) (steps : List JobStep) :
    Answered s (answers ++ [(f.submit target steps).1]) (f.submit target steps).2
  | other {answers : List (Except Fault JobId)} {f g : Fleet} (h : Answered s answers f)
    (hstep : Fine f g) (hsubmitted : g.submitted = f.submitted) : Answered s answers g

/-- A run with answers is a run. -/
theorem Answered.run {s : Fleet} (h : Answered s answers f) : FineRun s f := by
  induction h with
  | start => exact .refl
  | submit _ target steps ih => exact ih.tail (.step (.submit target steps))
  | other _ hstep _ ih => exact ih.tail hstep

/-- A run in which no number is given out answers no submit. -/
theorem Answered.extend {s : Fleet} (hs : s.Rooted) (h : Answered s answers f) (hrun : FineRun f g)
    (hsubmitted : g.submitted = f.submitted) : Answered s answers g := by
  induction hrun with
  | refl => exact h
  | @tail m g hrun hlast ih =>
    have hrooted := (h.run.loose.steady hs).rooted
    have hsteady := (FineRun.loose hrun).steady hrooted
    -- The count never falls, so it has stayed the same all the way.
    have hfirst := hsteady.submitted
    have hlater := ((Loose.fine hlast).leads hsteady.rooted).submitted
    exact (ih (by omega)).other hlast (by omega)

/-- A step is a submit, or no number is given out in it. -/
theorem Fine.submitted_cases (h : Fine f g) (hf : f.Rooted) :
    g.submitted = f.submitted ∨ ∃ target steps, g = (f.submit target steps).2 := by
  cases h with
  | claim | raise => exact Or.inl rfl
  | step h =>
    rcases h.split hf.callers with hbeside | rfl | ⟨writes, reads, -, rfl⟩ | ⟨id, rfl⟩ |
      hsubmit | ⟨id, rfl⟩
    · exact Or.inl hbeside.aside.submitted
    · exact Or.inl f.aside_readerTurn.submitted
    · exact Or.inl rfl
    · cases he : f.jobs.get? id with
      | none =>
        rw [workerTurn_of_none he]
        exact Or.inl rfl
      | some e => exact Or.inl (workerTurn_works he (hf.ids id e he)).workerFrame.submitted
    · exact Or.inr hsubmit
    · exact Or.inl (f.ran_stop id).submitted

/-- In every run submits get some answers. -/
theorem exists_answered {s : Fleet} (hs : s.Rooted) (h : FineRun s f) :
    ∃ answers, Answered s answers f := by
  induction h with
  | refl => exact ⟨[], .start⟩
  | tail hrun hlast ih =>
    obtain ⟨answers, hanswers⟩ := ih
    have hrooted := ((FineRun.loose hrun).steady hs).rooted
    rcases hlast.submitted_cases hrooted with hsubmitted | ⟨target, steps, rfl⟩
    · exact ⟨answers, hanswers.other hlast hsubmitted⟩
    · exact ⟨_, hanswers.submit target steps⟩

/-- The numbers of the jobs that were accepted. -/
def accepted (answers : List (Except Fault JobId)) : List JobId :=
  answers.filterMap Except.toOption

/-- The numbers that were given are those of the answers. -/
theorem mem_accepted_iff : id ∈ accepted answers ↔ .ok id ∈ answers := by
  rw [accepted, List.mem_filterMap]
  constructor
  · rintro ⟨answer, hmem, hanswer⟩
    cases answer with
    | error fault => cases hanswer
    | ok other =>
      cases hanswer
      exact hmem
  · exact fun hmem => ⟨_, hmem, rfl⟩

/-- As long as numbers last, the next one is one more than the count of submits. -/
theorem toNat_nextId (hlt : f.submitted + 1 < 2 ^ 64) : f.nextId.toNat = f.submitted + 1 := by
  rw [nextId, UInt64.toNat_ofNat', Nat.mod_eq_of_lt hlt]

/-- Submits get numbers one after the other, and those that are accepted are those of the jobs that
there are. A submit that is refused uses up its number. -/
structure Enrolled (answers : List (Except Fault JobId)) (f : Fleet) : Prop where
  count : answers.length = f.submitted
  numbers : ∀ i id, answers[i]? = some (.ok id) → id.toNat = i + 1
  jobs : ∀ id, (∃ e, f.jobs.get? id = some e) ↔ .ok id ∈ answers

/-- At the start nothing has been submitted. -/
theorem enrolled_opened (config : Config) (store : UnreliableStore) (registry : Registry) :
    Enrolled [] (opened config store registry) := by
  refine ⟨?_, nofun, fun id => ⟨?_, nofun⟩⟩
  · obtain ⟨agenda, broker, correlating, held, hopened⟩ := opened_eq config store registry
    rw [hopened]
    rfl
  · rintro ⟨e, he⟩
    rw [get?_opened] at he
    cases he

/-- A submit is answered with the next number or refused. -/
theorem Enrolled.submit (h : Enrolled answers f) (target : String) (steps : List JobStep)
    (hlt : f.submitted + 1 < 2 ^ 64) :
    Enrolled (answers ++ [(f.submit target steps).1]) (f.submit target steps).2 := by
  have hnumbers {answer : Except Fault JobId}
      (hanswer : ∀ id, answer = .ok id → id.toNat = f.submitted + 1) (i : Nat) (id : JobId)
      (hi : (answers ++ [answer])[i]? = some (.ok id)) : id.toNat = i + 1 := by
    rcases Nat.lt_or_ge i answers.length with hold | hnew
    · rw [List.getElem?_append_left hold] at hi
      exact h.numbers i id hi
    · rw [List.getElem?_append_right hnew, List.getElem?_singleton] at hi
      split at hi
      · next hlast =>
        rw [hanswer id (Option.some.inj hi), ← h.count]
        omega
      · cases hi
  rcases f.submit_new target steps with ⟨fault, m, hsubmit, -⟩ |
    ⟨job, tx, m, agenda, -, hsubmit, -⟩ <;> rw [hsubmit]
  · refine ⟨?_, hnumbers nofun, fun id => ?_⟩
    · rw [List.length_append, h.count]
      rfl
    · rw [List.mem_append, List.mem_singleton, or_iff_left nofun]
      exact h.jobs id
  · refine ⟨?_, hnumbers fun id hid => ?_, fun id => ?_⟩
    · rw [List.length_append, h.count]
      rfl
    · rw [← Except.ok.inj hid, toNat_nextId hlt]
    · rw [List.mem_append, List.mem_singleton, ← h.jobs id]
      dsimp only
      rw [Table.get?_set]
      split
      · next hid => exact ⟨fun _ => Or.inr (hid ▸ rfl), fun _ => ⟨_, rfl⟩⟩
      · next hid => exact (or_iff_left fun hsame => hid (Except.ok.inj hsame).symm).symm

/-- Nothing but a submit changes which jobs there are. -/
theorem Enrolled.other (h : Enrolled answers f) (hf : f.Rooted) (hstep : Fine f g)
    (hsubmitted : g.submitted = f.submitted) : Enrolled answers g := by
  refine ⟨h.count.trans hsubmitted.symm, h.numbers, fun id => ?_⟩
  have heffect := ((Loose.fine hstep).leads hf).effects id
  rw [← h.jobs id]
  constructor
  · rintro ⟨e', he'⟩
    rcases heffect.origin he' with ⟨e, he, -⟩ | ⟨-, hnew, -⟩
    · exact ⟨e, he⟩
    · omega
  · rintro ⟨e, he⟩
    exact heffect.remains he

/-- In every run the jobs are those whose submits were accepted. -/
theorem Answered.enrolled (h : Answered (opened config store registry) answers f)
    (hlt : f.submitted < 2 ^ 64) : Enrolled answers f := by
  induction h with
  | start => exact enrolled_opened config store registry
  | @submit answers f _ target steps ih =>
    have hcount : (f.submit target steps).2.submitted = f.submitted + 1 := by
      rcases f.submit_new target steps with ⟨fault, m, hsubmit, -⟩ |
        ⟨job, tx, m, agenda, -, hsubmit, -⟩ <;> rw [hsubmit]
    rw [hcount] at hlt
    exact (ih (Nat.lt_of_succ_lt hlt)).submit target steps hlt
  | other h hstep hsubmitted ih =>
    exact (ih (hsubmitted ▸ hlt)).other h.run.loose.rooted hstep hsubmitted

/-- Numbers grow. -/
theorem Enrolled.pairwise (h : Enrolled answers f) : (accepted answers).Pairwise (· < ·) := by
  rw [accepted, List.pairwise_filterMap, List.pairwise_iff_getElem]
  intro i j hi hj hij a ha b hb
  have hnumber {k : Nat} (hk : k < answers.length) {c : JobId}
      (hc : answers[k].toOption = some c) : c.toNat = k + 1 := by
    refine h.numbers k c ?_
    rw [List.getElem?_eq_getElem hk]
    cases hanswer : answers[k] with
    | error fault =>
      rw [hanswer] at hc
      cases hc
    | ok id =>
      rw [hanswer] at hc
      cases hc
      rfl
  rw [UInt64.lt_iff_toNat_lt, hnumber hi ha, hnumber hj hb]
  omega

/-- What is said of a job that the fleet does not track is what its record says. -/
theorem status_of_untracked (h : f.tracked? id = none)
    (hread : (f.read (Job.key id)).1.isOk = true) :
    (f.status id).1 = (f.transactions.store.store.read (Job.key id)).elim
      (.error (.jobNotFound id)) fun record => decodeJob record.value := by
  have hpersisted := persisted_of_isOk hread
  rw [status, h]
  dsimp only
  generalize f.persisted id = r at hpersisted ⊢
  obtain ⟨result, f'⟩ := r
  dsimp only at hpersisted
  subst hpersisted
  cases f.transactions.store.store.read (Job.key id) with
  | none => rfl
  | some record =>
    dsimp only [Option.elim_some]
    cases decodeJob record.value <;> rfl

/-- A job that is not there is not tracked. -/
theorem tracked?_of_absent (h : f.jobs.get? id = none) : f.tracked? id = none := by
  rw [tracked?, h]
  rfl

/-- A new job is on record under a number that no job of the fleet had, and every other job and
every other record is as it was. -/
structure Enrols (f g : Fleet) (id : JobId) (job : Job) : Prop where
  number : id.toNat = f.submitted + 1
  absent : f.jobs.get? id = none
  record : ∃ version, g.transactions.store.store.read (Job.key id) =
    some ⟨job.toRecord.toBytes, version⟩
  status : (g.status id).1 = .ok job
  jobs : ∀ other, other ≠ id → g.jobs.get? other = f.jobs.get? other
  records : ∀ key, key ≠ Job.key id →
    g.transactions.store.store.read key = f.transactions.store.store.read key

private theorem enrols_of_submit (hf : f.Rooted) (hlt : f.submitted + 1 < 2 ^ 64)
    (h : (f.submit target steps).1 = .ok id) :
    Enrols f (f.submit target steps).2 id (Job.new id target steps f.nowMs) := by
  rcases f.submit_new target steps with ⟨fault, m, hsubmit, -⟩ |
    ⟨job, tx, m, agenda, rfl, hsubmit, hm⟩
  · rw [hsubmit] at h
    cases h
  rw [hsubmit] at h ⊢
  obtain rfl : f.nextId = id := Except.ok.inj h
  have hread (key : String) := (congrArg (Store.read · key) hm).trans
    (Store.read_apply_put f.transactions.store.store (Job.key f.nextId) _ key)
  refine ⟨toNat_nextId hlt, ?_, ⟨_, (hread _).trans (if_pos rfl)⟩, ?_, fun other hne => ?_,
    fun key hne => ?_⟩
  · cases he : f.jobs.get? f.nextId with
    | none => rfl
    | some e => exact (nextId_ne (hf.given f.nextId e he) hlt rfl).elim
  · rw [Fleet.status, tracked?]
    dsimp only
    rw [Table.get?_set_self]
    rfl
  · exact Table.get?_set_ne _ _ (Ne.symm hne)
  · exact (hread key).trans (if_neg (Ne.symm hne))

/-- At every point of every run, a job that is submitted and accepted gets the next number, which no
other job of the fleet has, and writes over no record of theirs. What it finds under its number is
what the store held there when the fleet was opened: the record is a new one exactly if there was
none, and otherwise the number turns from the job of that record to the new one. -/
theorem enrols_run (hregistry : registry.Spares)
    (hrun : FineRun (opened config store registry) f) (hlt : f.submitted + 1 < 2 ^ 64)
    (h : (f.submit target steps).1 = .ok id) :
    Enrols f (f.submit target steps).2 id (Job.new id target steps f.nowMs) ∧
    f.transactions.store.store.read (Job.key id) = store.store.read (Job.key id) ∧
    ((f.read (Job.key id)).1.isOk = true → (f.status id).1 =
      (store.store.read (Job.key id)).elim (.error (.jobNotFound id)) fun record =>
        decodeJob record.value) := by
  have henrols := enrols_of_submit hrun.loose.rooted hlt h
  have hread : f.transactions.store.store.read (Job.key id) = store.store.read (Job.key id) := by
    refine (hrun.read_cases hregistry (isJobKey_key id)).resolve_right ?_
    rintro ⟨other, e, hkey, he⟩
    cases Job.key_inj hkey
    cases henrols.absent.symm.trans he
  refine ⟨henrols, hread, fun hok => ?_⟩
  rw [status_of_untracked (tracked?_of_absent henrols.absent) hok, hread]

/-- A fleet whose only job has completed. -/
def earlierFleet : Fleet :=
  ((opened .standard (.new []) .empty).submit "edge-0" []).2.turns (List.replicate 5 (.worker 1))

/-- A fleet that is opened over the store of that one. -/
def reopenedFleet : Fleet := opened .standard earlierFleet.transactions.store .empty

/-- The new fleet knows the job of the earlier one under its number. -/
theorem status_reopenedFleet :
    ∃ job, (reopenedFleet.status 1).1 = .ok job ∧ job.target = "edge-0" ∧
      job.state = .completed := by
  have hrun : Run (fun key => ¬IsJobKey key) (opened .standard (.new []) .empty) earlierFleet :=
    .head (.submit "edge-0" []) (run_turns _ _)
  have hpublished := published_of_run Registry.spares_empty hrun
  have hentry : ∃ e, earlierFleet.jobs.get? 1 = some e ∧ e.snapshot.target = "edge-0" ∧
      e.snapshot.state = .completed ∧ e.snapshot.toRecord.toBytes.length < 2 ^ 64 :=
    ⟨_, rfl, rfl, rfl, by decide +kernel⟩
  obtain ⟨e, he, htarget, hstate, hlength⟩ := hentry
  have hrecord := (hpublished.told 1).read
  rw [(hpublished.snapshot 1 e he).2, Option.map_some, Option.some_or] at hrecord
  have habsent : reopenedFleet.jobs.get? 1 = none := get?_opened ..
  have hstatus := status_of_untracked (tracked?_of_absent habsent) rfl
  have hread : reopenedFleet.transactions.store.store.read (Job.key 1) =
    earlierFleet.transactions.store.store.read (Job.key 1) := rfl
  rw [hread, hrecord, Option.elim_some, (records_toBytes e.snapshot).decoded hlength] at hstatus
  exact ⟨_, hstatus, htarget, hstate⟩

/-- A submit that the new fleet accepts writes over the record of the earlier job, and its number is
that of the new job. -/
theorem reopenedFleet_overwrites :
    (∃ record, reopenedFleet.transactions.store.store.read (Job.key 1) = some record) ∧
    (∃ job, (reopenedFleet.status 1).1 = .ok job ∧ job.target = "edge-0" ∧
      job.state = .completed) ∧
    (reopenedFleet.submit "edge-1" []).1 = .ok 1 ∧
    ∃ job, ((reopenedFleet.submit "edge-1" []).2.status 1).1 = .ok job ∧ job.target = "edge-1" ∧
      job.state = .created :=
  ⟨⟨_, rfl⟩, status_reopenedFleet, rfl, _, rfl, rfl, rfl⟩

/-- A submit to the earlier fleet makes a new record, and leaves that of its first job alone. -/
theorem enrols_run_earlierFleet :
    (earlierFleet.submit "edge-1" []).1 = .ok 2 ∧
    earlierFleet.transactions.store.store.read (Job.key 2) = none ∧
    (earlierFleet.submit "edge-1" []).2.transactions.store.store.read (Job.key 1) =
      earlierFleet.transactions.store.store.read (Job.key 1) := by
  have hrun : FineRun (opened .standard (.new []) .empty) earlierFleet :=
    .head (.step (.submit "edge-0" [])) (fineRun_turns _ _)
  have haccepted : (earlierFleet.submit "edge-1" []).1 = .ok 2 := rfl
  obtain ⟨henrols, hread, -⟩ :=
    enrols_run Registry.spares_empty hrun (by decide) haccepted
  exact ⟨haccepted, hread, henrols.records (Job.key 1) (by decide)⟩

end Flotilla.Fleet
