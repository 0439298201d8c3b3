import Flotilla.Proofs.Fleet.JobHistory
import Flotilla.Proofs.Fleet.Parting
import Flotilla.Proofs.Fleet.Queueing

/-!
# Permits are neither lost nor made

There are as many permits at the end of a run as at its start: those that nobody has, those that
have been given to a job in line, and those that jobs have (`Fleet.Rationed`). A turn of a worker
takes one, gives its own back, or does neither (`Fleet.PermitTurn`). As long as a job has not got a
permit, nothing has been done for it since it was submitted (`Fleet.Unadmitted`); and the only way
to lose one is to leave, which gives it back, whatever the job has come to (`Fleet.permits_run`).
-/

namespace Flotilla

namespace Permits

/-- The permits that no job has: those that are free, and those that have been given to a job which
has not collected its own yet. -/
def spare (p : Permits) : Nat := p.free + p.granted.length

/-- A permit that is taken is no longer to spare. -/
theorem spare_acquire (p : Permits) (job : JobId) :
    (p.acquire job).2.spare + (if (p.acquire job).1 = true then 1 else 0) = p.spare := by
  rcases p.acquire_cases job with
    ⟨hgranted, he⟩ | ⟨-, -, he⟩ | ⟨-, -, -, he⟩ | ⟨-, -, hfree, he⟩ <;> rw [he]
  · have hpos := List.length_pos_of_mem hgranted
    rw [if_pos rfl, spare, spare, List.length_erase_of_mem hgranted]
    dsimp only
    omega
  · rfl
  · rfl
  · rw [if_pos rfl, spare, spare]
    dsimp only
    omega

/-- A permit that is given back is to spare again. -/
theorem spare_release (p : Permits) : p.release.2.spare = p.spare + 1 := by
  rcases p.release_cases with ⟨-, he⟩ | ⟨next, line, -, he⟩ <;> rw [he, spare, spare]
  · dsimp only
    omega
  · rw [List.length_append, List.length_singleton, Nat.add_assoc]

end Permits

instance : DecidablePred Stage.Permitted
  | .queued | .gone => inferInstanceAs (Decidable False)
  | .moving .. | .resting .. | .choosing | .starting _ | .acting .. | .waiting .. | .succeeding _
  | .pausing _ | .backingOff .. | .leaving _ => inferInstanceAs (Decidable True)

namespace JobEntry

variable {e e' : JobEntry} {f : Fleet} {id : JobId}

/-- Whoever waits for a permit after a turn has waited for it before, and nothing has changed. -/
theorem eq_of_brings_queued (hbrings : (e.work f id).Brings f id e e')
    (hqueued : e'.stage = .queued) : e' = e := by
  rcases permitted_or_left_of_brings hbrings with hpermitted | hsame | ⟨result, -, rfl⟩
  · rw [hqueued] at hpermitted
    exact hpermitted.elim
  · exact hsame
  · cases hqueued

/-- What holds of a job when it begins to wait for its permit holds as long as it waits: nothing
can happen to it before it has been let in. -/
theorem rule_of_queued {P : JobEntry → Prop} (hphase : ∀ e, P e → e.phase = .queued) :
    Rule fun _ _ e => e.stage = .queued → P e where
  asked _ _ e e' h ha hqueued := by
    rcases ha with rfl | ⟨hrunning, rfl⟩
    · exact h hqueued
    · cases (hphase e (h hqueued)).symm.trans hrunning
  works f id e e' _ _ h hbrings hqueued := by
    obtain rfl := eq_of_brings_queued hbrings hqueued
    exact h hqueued
  claimed _ _ e h hrunning hqueued := by
    cases (hphase e (h hqueued)).symm.trans hrunning
  raised _ _ e h hclaimed hqueued := by
    rcases hclaimed with hasked | hfinished
    · cases (hphase e (h hqueued)).symm.trans hasked
    · cases (hphase e (h hqueued)).symm.trans hfinished

/-- Nothing is made of a job that waits for its permit. -/
theorem rule_queued {e₀ : JobEntry} (hphase : e₀.phase = .queued) :
    Rule fun _ _ e => e.stage = .queued → e = e₀ :=
  rule_of_queued fun _ he => he ▸ hphase

/-- A job that waits for its permit is as it was submitted. -/
theorem rule_unadmitted : Rule fun _ _ e =>
    e.stage = .queued → ∃ target steps nowMs, e = .new (Job.new e.job.id target steps nowMs) :=
  rule_of_queued (by
    rintro e ⟨target, steps, nowMs, he⟩
    rw [he]
    rfl)

/-- Who has not waited for a permit does not begin to. -/
theorem rule_admitted : Rule fun _ _ e => e.stage ≠ .queued :=
  .of_same (fun _ _ _ _ h hsame => hsame.stage ▸ h) fun _ _ _ _ h hbrings hqueued =>
    h (eq_of_brings_queued hbrings hqueued ▸ hqueued)

end JobEntry

namespace Fleet

variable {f g : Fleet} {id job : JobId} {e e' : JobEntry} {config : Config}
  {store : UnreliableStore} {registry : Registry} {n : Nat}

/-- The jobs that have a permit. -/
def holders (f : Fleet) : List JobId :=
  (f.jobs.entries.filter fun entry => entry.2.stage.Permitted).map Prod.fst

/-- The holders are the jobs that have a permit. -/
theorem mem_holders_iff : id ∈ f.holders ↔ f.HasPermit id := by
  constructor
  · intro hid
    obtain ⟨⟨job, e⟩, hmem, rfl⟩ := List.mem_map.1 hid
    obtain ⟨hin, hpermitted⟩ := List.mem_filter.1 hmem
    exact ⟨e, (Table.get?_eq_some_iff _ _ _).2 hin, of_decide_eq_true hpermitted⟩
  · rintro ⟨e, he, hpermitted⟩
    refine List.mem_map_of_mem (f := Prod.fst) (a := (id, e)) ?_
    exact List.mem_filter.2 ⟨(Table.get?_eq_some_iff _ _ _).1 he, decide_eq_true hpermitted⟩

/-- No job holds two permits. -/
theorem nodup_holders (f : Fleet) : f.holders.Nodup :=
  (List.filter_sublist.map Prod.fst).nodup f.jobs.nodup

/-- Whoever has the same holders has as many. -/
theorem length_holders_eq (h : ∀ job, g.HasPermit job ↔ f.HasPermit job) :
    g.holders.length = f.holders.length := by
  refine List.Perm.length_eq ((List.perm_ext_iff_of_nodup g.nodup_holders f.nodup_holders).2 ?_)
  exact fun job => by rw [mem_holders_iff, mem_holders_iff, h]

/-- One more has a permit. -/
theorem length_holders_succ (hbefore : ¬f.HasPermit id) (hafter : g.HasPermit id)
    (hothers : ∀ job, job ≠ id → (g.HasPermit job ↔ f.HasPermit job)) :
    g.holders.length = f.holders.length + 1 := by
  have hnodup : (id :: f.holders).Nodup :=
    List.nodup_cons.2 ⟨fun hmem => hbefore (mem_holders_iff.1 hmem), f.nodup_holders⟩
  refine ((List.perm_ext_iff_of_nodup g.nodup_holders hnodup).2 fun job => ?_).length_eq
  rw [List.mem_cons, mem_holders_iff, mem_holders_iff]
  by_cases hjob : job = id
  · subst hjob
    exact ⟨fun _ => Or.inl rfl, fun _ => hafter⟩
  · rw [hothers job hjob]
    exact ⟨Or.inr, fun h => h.resolve_left hjob⟩

private theorem hasPermit_congr (h : g.jobs.get? job = f.jobs.get? job) :
    g.HasPermit job ↔ f.HasPermit job := by
  rw [HasPermit, HasPermit, h]

/-- A job whose worker has left has no permit. -/
theorem HasLeft.not_hasPermit (h : f.HasLeft id) : ¬f.HasPermit id := by
  rintro ⟨e, he, hpermitted⟩
  obtain ⟨e₁, he₁, hgone⟩ := h
  cases he.symm.trans he₁
  rw [hgone] at hpermitted
  exact hpermitted

/-- What a turn of the worker of a job does to the permits and to its own. -/
inductive PermitTurn (id : JobId) (f g : Fleet) : Prop
  | keeps (hpermits : g.permits = f.permits) (hsame : g.HasPermit id ↔ f.HasPermit id)
  /-- It waits for a permit. -/
  | waits (hpermits : g.permits = (f.permits.acquire id).2) (hgot : (f.permits.acquire id).1 ≠ true)
    (hsame : g.HasPermit id ↔ f.HasPermit id)
  /-- It takes a permit. -/
  | takes (hpermits : g.permits = (f.permits.acquire id).2) (hgot : (f.permits.acquire id).1 = true)
    (hbefore : ¬f.HasPermit id) (hafter : g.HasPermit id)
  /-- It gives its permit back. -/
  | returns (hpermits : g.permits = f.permits.release.2) (hbefore : f.HasPermit id)
    (hafter : g.HasLeft id)

/-- In its turn a worker takes a permit, gives one back, or leaves the permits alone. -/
theorem permitTurn_workerTurn (he : f.jobs.get? id = some e) (hid : e.job.id = id) :
    PermitTurn id f (f.workerTurn id).fleet := by
  have hpermits := permits_workerTurn he hid
  obtain ⟨e', he', hbrings⟩ := (workerTurn_works he hid).brings he
  have hbefore : f.HasPermit id ↔ e.stage.Permitted := by
    refine ⟨?_, fun h => ⟨e, he, h⟩⟩
    rintro ⟨e₁, he₁, h⟩
    cases he.symm.trans he₁
    exact h
  have hafter : (f.workerTurn id).fleet.HasPermit id ↔ e'.stage.Permitted := by
    refine ⟨?_, fun h => ⟨e', he', h⟩⟩
    rintro ⟨e₁, he₁, h⟩
    cases he'.symm.trans he₁
    exact h
  cases hstage : e.stage with
  | queued =>
    rw [hstage] at hpermits hbefore
    rw [JobEntry.work, hstage] at hbrings
    dsimp only at hbrings
    split at hbrings <;> obtain rfl := hbrings
    · next hgot => exact .takes hpermits hgot hbefore.1 (hafter.2 trivial)
    · next hgot =>
      refine .waits hpermits hgot ?_
      rw [hafter, hstage, hbefore]
  | leaving result =>
    rw [hstage] at hpermits hbefore
    rw [JobEntry.work, hstage] at hbrings
    obtain rfl := hbrings
    exact .returns hpermits (hbefore.2 trivial) ⟨_, he', rfl⟩
  | gone =>
    rw [hstage] at hpermits
    rw [JobEntry.work, hstage] at hbrings
    obtain rfl := hbrings
    exact .keeps hpermits (hafter.trans hbefore.symm)
  | _ =>
    rw [hstage] at hpermits
    have hpermitted : e.stage.Permitted := by rw [hstage]; trivial
    have hstays (result : Except Fault Unit) : e.stage ≠ .leaving result := by
      rw [hstage]
      rintro ⟨⟩
    refine .keeps hpermits ?_
    rw [hafter, hbefore]
    exact iff_of_true (JobEntry.permitted_of_brings hpermitted hstays hbrings) hpermitted

/-- All permits are accounted for: those that nobody has, those that have been given to a job in
line, and those that jobs have. -/
structure Rationed (n : Nat) (f : Fleet) : Prop where
  once : (f.permits.granted ++ f.holders).Nodup
  total : f.permits.free + (f.permits.granted ++ f.holders).length = n
  bound : f.holders.length ≤ n

/-- A turn of a worker makes no permit and loses none. -/
theorem PermitTurn.total (h : PermitTurn id f g)
    (hothers : ∀ job, job ≠ id → g.jobs.get? job = f.jobs.get? job) :
    g.permits.spare + g.holders.length = f.permits.spare + f.holders.length := by
  have hrest (job : JobId) (hjob : job ≠ id) : g.HasPermit job ↔ f.HasPermit job :=
    hasPermit_congr (hothers job hjob)
  have hall (hself : g.HasPermit id ↔ f.HasPermit id) (job : JobId) :
      g.HasPermit job ↔ f.HasPermit job := by
    by_cases hjob : job = id
    · exact hjob ▸ hself
    · exact hrest job hjob
  have hspare := f.permits.spare_acquire id
  cases h with
  | keeps hpermits hsame => rw [hpermits, length_holders_eq (hall hsame)]
  | waits hpermits hgot hsame =>
    rw [if_neg hgot] at hspare
    rw [hpermits, length_holders_eq (hall hsame)]
    omega
  | takes hpermits hgot hbefore hafter =>
    rw [if_pos hgot] at hspare
    rw [hpermits, length_holders_succ hbefore hafter hrest]
    omega
  | returns hpermits hbefore hafter =>
    have hheld := length_holders_succ hafter.not_hasPermit hbefore fun job hjob =>
      (hrest job hjob).symm
    rw [hpermits, Permits.spare_release, hheld]
    omega

/-- Whoever has a permit after a step that is no turn of a worker has had it before. -/
theorem Leads.hasPermit_iff (h : Leads f g) (hf : f.Rooted)
    (hturn : ¬∃ id e, f.jobs.get? id = some e ∧ g = (f.workerTurn id).fleet)
    (hlt : g.submitted < 2 ^ 64) (id : JobId) : g.HasPermit id ↔ f.HasPermit id := by
  cases h.effects id with
  | beside hentry _ =>
    refine ⟨?_, (stays_of_marked hentry).hasPermit⟩
    rintro ⟨e', he', hpermitted⟩
    rw [he'] at hentry
    obtain ⟨e, he, hm⟩ := mark_of_rel hentry
    exact ⟨e, he, hm.same.stage ▸ hpermitted⟩
  | @turn e e' he _ hg _ _ => exact (hturn ⟨id, e, he, hg⟩).elim
  | submitted target steps hid hsubmitted he' _ =>
    constructor
    · rintro ⟨e₁, he₁, hpermitted⟩
      cases he'.symm.trans he₁
      exact hpermitted.elim
    · rintro ⟨e₁, he₁, -⟩
      exact (nextId_ne (hf.given id e₁ he₁) (hsubmitted ▸ hlt) hid).elim

/-- Permits to spare and permits in hand add up to what they added up to before. -/
theorem Loose.total (h : Loose f g) (hf : f.Rooted) (hlt : g.submitted < 2 ^ 64) :
    g.permits.spare + g.holders.length = f.permits.spare + f.holders.length := by
  by_cases hturn : ∃ id e, f.jobs.get? id = some e ∧ g = (f.workerTurn id).fleet
  · obtain ⟨id, e, he, rfl⟩ := hturn
    have hid := hf.ids id e he
    exact (permitTurn_workerTurn he hid).total (workerTurn_works he hid).workerFrame.others
  · rw [(h.permits hf).resolve_right hturn,
      length_holders_eq ((h.leads hf).hasPermit_iff hf hturn hlt)]

/-- At the start all permits are to spare. -/
theorem permits_opened (config : Config) (store : UnreliableStore) (registry : Registry) :
    (opened config store registry).permits = .new config.maxConcurrentJobs ∧
      (opened config store registry).holders = [] := by
  obtain ⟨agenda, broker, correlating, held, hopened⟩ := opened_eq config store registry
  rw [hopened]
  exact ⟨rfl, rfl⟩

/-- In every run no job waits while a permit is free, and what is given out goes to those in
line. -/
theorem LooseRun.queueing (hpositive : 1 ≤ config.maxConcurrentJobs)
    (hrun : LooseRun (opened config store registry) f) (hlt : f.submitted < 2 ^ 64) :
    f.Queueing := by
  refine hrun.preserves hlt ?_ fun hf hlast hlt hqueueing =>
    hqueueing.hands (hlast.hands hf hlt)
  exact queueing_new (Nat.ne_of_gt hpositive) (permits_opened config store registry).1

/-- In every run the permits to spare and those in hand are all that there are. -/
theorem LooseRun.total (hrun : LooseRun (opened config store registry) f)
    (hlt : f.submitted < 2 ^ 64) :
    f.permits.spare + f.holders.length = config.maxConcurrentJobs := by
  refine hrun.preserves (P := fun f => f.permits.spare + f.holders.length =
    config.maxConcurrentJobs) hlt ?_ fun hf hlast hlt htotal => (hlast.total hf hlt).trans htotal
  obtain ⟨hpermits, hholders⟩ := permits_opened config store registry
  rw [hpermits, hholders]
  rfl

/-- In every run all permits are accounted for. -/
theorem LooseRun.rationed (hpositive : 1 ≤ config.maxConcurrentJobs)
    (hrun : LooseRun (opened config store registry) f) (hlt : f.submitted < 2 ^ 64) :
    f.Rationed config.maxConcurrentJobs := by
  have hqueueing := hrun.queueing hpositive hlt
  have htotal := hrun.total hlt
  rw [Permits.spare] at htotal
  refine ⟨?_, ?_, by omega⟩
  · have hgranted := (List.nodup_append.1 hqueueing.once).1
    refine hgranted.append f.nodup_holders fun id hid hholds => ?_
    exact (hqueueing.granted id hid).not_hasPermit (mem_holders_iff.1 hholds)
  · rw [List.length_append]
    omega

/-- No record precedes that of the creation. -/
theorem RecordedHistory.history_of_created (h : f.RecordedHistory id) (he : f.jobs.get? id = some e)
    (hstate : e.snapshot.state = .created) :
    f.historyOf id = [(.created, e.snapshot.currentStep)] := by
  have hlast := h.last e he
  rw [hstate] at hlast
  obtain ⟨before, hsplit⟩ := List.getLast?_eq_some_iff.1 hlast
  have hchain := h.chain
  rcases before.eq_nil_or_concat with rfl | ⟨earlier, r, rfl⟩
  · exact hsplit
  · rw [hsplit, List.concat_eq_append, List.append_assoc, List.singleton_append] at hchain
    have hprecedes := (List.isChain_append_cons_cons.1 hchain).2.1.state
    revert hprecedes
    cases r.1 <;> exact nofun

/-- Nothing has been done for a job since it was submitted. -/
structure Unadmitted (config : Config) (store : UnreliableStore) (registry : Registry) (id : JobId)
    (f : Fleet) : Prop where
  entry : ∃ target steps nowMs, f.jobs.get? id = some (.new (Job.new id target steps nowMs))
  /-- One record was announced, that of its creation. -/
  history : f.historyOf id = [(.created, 0)]
  /-- That is the only one that the store took, if nobody else writes job records. -/
  record : registry.Spares → FineRun (opened config store registry) f →
    ∃ e, f.jobs.get? id = some e ∧ f.commitsOf id = [e.snapshot.toRecord.toBytes]
  /-- Its entry has never been another one, and its worker has never run a program. -/
  idle : ∀ f₀ e₀, LooseRun (opened config store registry) f₀ → LooseRun f₀ f →
    f₀.jobs.get? id = some e₀ →
    f.jobs.get? id = some e₀ ∧ ∀ run program, e₀.work f₀ id ≠ .perform run program
  stop : f.stop id = (.error (.jobNotRunning id .created), f)

/-- A job that waits for its permit has never had one. -/
theorem LooseRun.unadmitted (hrun : LooseRun (opened config store registry) f)
    (hlt : f.submitted < 2 ^ 64) (he : f.jobs.get? id = some e) (hqueued : e.stage = .queued) :
    Unadmitted config store registry id f := by
  have hroot := rooted_opened config store registry
  have hsteady := LooseRun.steady hrun hroot
  have hentry : ∃ target steps nowMs, e = .new (Job.new id target steps nowMs) := by
    obtain ⟨target, steps, nowMs, hnew⟩ :=
      hrun.obeys JobEntry.rule_unadmitted (fun id target steps nowMs _ =>
        ⟨target, steps, nowMs, rfl⟩) he hqueued
    exact ⟨target, steps, nowMs, hsteady.rooted.ids id e he ▸ hnew⟩
  obtain ⟨target, steps, nowMs, rfl⟩ := hentry
  have hhistory : f.historyOf id = [(.created, 0)] :=
    (recordedHistory_of_run hrun hlt id).history_of_created he rfl
  refine ⟨⟨target, steps, nowMs, he⟩, hhistory, fun hspares hfine => ?_,
    fun f₀ e₀ hbefore hthen he₀ => ?_, ?_⟩
  · have hpublished := hfine.published hspares
    have hannounced := hsteady.announced (announced_opened config store registry)
    have hnotices := (hpublished.told id).notices
    rw [hannounced.noticesOf, hhistory] at hnotices
    obtain ⟨value, hvalue⟩ := List.length_eq_one_iff.1 hnotices.length_eq
    have hlast := (hpublished.snapshot id _ he).2
    rw [hvalue, List.getLast?_singleton] at hlast
    exact ⟨_, he, hvalue.trans (congrArg ([·]) (Option.some.inj hlast))⟩
  · have hrooted₀ := hbefore.rooted
    have hqueued₀ : e₀.stage = .queued := by
      by_contra hadmitted
      obtain ⟨⟨e', he', hnot⟩, -⟩ :=
        hthen.sustains JobEntry.rule_admitted hrooted₀ he₀ hadmitted hlt
      cases he.symm.trans he'
      exact hnot hqueued
    have hphase₀ : e₀.phase = .queued := by
      have hbefits := (level_of_run hbefore he₀).1.befits
      rw [hqueued₀] at hbefits
      exact hbefits.2
    obtain ⟨⟨e', he', hsame⟩, -⟩ := hthen.sustains (JobEntry.rule_queued hphase₀) hrooted₀
      he₀ (fun _ => rfl) hlt
    cases he.symm.trans he'
    refine ⟨hsame hqueued ▸ he, fun run program hwork => ?_⟩
    obtain ⟨-, hacting | ⟨suspension, hwaiting, -⟩⟩ := JobEntry.perform_cases hwork
    · cases hqueued₀.symm.trans hacting
    · cases hqueued₀.symm.trans hwaiting
  · have htracked : f.tracked? id = some (.new (Job.new id target steps nowMs)) := by
      rw [tracked?, he]
      rfl
    rw [stop, htracked]
    rfl

/-- The worker of a job has left, and its permit has been given back. -/
structure Returns (id : JobId) (f g : Fleet) : Prop where
  left : g.HasLeft id
  permits : g.permits = f.permits.release.2
  /-- One more is free, or has been given to a job in line. -/
  total : g.permits.free + g.permits.granted.length =
    f.permits.free + f.permits.granted.length + 1

/-- A worker that leaves gives its permit back. -/
theorem returns_workerTurn (he : f.jobs.get? id = some e) (hid : e.job.id = id)
    {result : Except Fault Unit} (hstage : e.stage = .leaving result) :
    Returns id f (f.workerTurn id).fleet := by
  have hpermits := permits_workerTurn he hid
  rw [hstage] at hpermits
  obtain ⟨e', he', hbrings⟩ := (workerTurn_works he hid).brings he
  rw [JobEntry.work, hstage] at hbrings
  obtain rfl := hbrings
  exact ⟨⟨_, he', rfl⟩, hpermits, hpermits ▸ f.permits.spare_release⟩

/-- A permit is lost in the turn in which the worker leaves, and in no other step. -/
theorem Loose.leaving_of_lost (h : Loose f g) (hf : f.Rooted) (hlt : g.submitted < 2 ^ 64)
    (hbefore : f.HasPermit id) (hafter : ¬g.HasPermit id) :
    ∃ e result, f.jobs.get? id = some e ∧ e.stage = .leaving result ∧
      g = (f.workerTurn id).fleet := by
  obtain ⟨e, he, hpermitted⟩ := hbefore
  cases (h.leads hf).effects id with
  | beside hentry _ => exact (hafter ((stays_of_marked hentry).hasPermit ⟨e, he, hpermitted⟩)).elim
  | @turn e₁ e' he₁ he' hturn hbrings _ =>
    cases he.symm.trans he₁
    by_contra hnot
    have hstays (result : Except Fault Unit) : e.stage ≠ .leaving result := fun hstage =>
      hnot ⟨e, result, he, hstage, hturn⟩
    exact hafter ⟨e', he', JobEntry.permitted_of_brings hpermitted hstays hbrings⟩
  | submitted target steps hid hsubmitted _ _ =>
    exact (nextId_ne (hf.given id e he) (hsubmitted ▸ hlt) hid).elim

/-- At every point of every run all permits are accounted for, so that never more jobs have one than
there are. For a job that has none and whose worker is still there, nothing has been done since it
was submitted, and it cannot be stopped. Every worker that leaves gives its permit back, whether it
leaves with an end on record or because none could be recorded, and no permit is lost in any other
way. -/
theorem permits_run (hpositive : 1 ≤ config.maxConcurrentJobs)
    (hrun : LooseRun (opened config store registry) f) (hlt : f.submitted < 2 ^ 64) :
    f.Rationed config.maxConcurrentJobs ∧
    (∀ id e, f.jobs.get? id = some e → id ∉ f.holders → e.done = false →
      Unadmitted config store registry id f) ∧
    (∀ id e result, f.jobs.get? id = some e → e.stage = .leaving result →
      result.isOk = e.snapshot.isTerminal ∧ Returns id f (f.workerTurn id).fleet) ∧
    ∀ g id, Loose f g → g.submitted < 2 ^ 64 → id ∈ f.holders → id ∉ g.holders →
      ∃ e result, f.jobs.get? id = some e ∧ e.stage = .leaving result ∧
        g = (f.workerTurn id).fleet := by
  have hrooted := hrun.rooted
  refine ⟨hrun.rationed hpositive hlt, fun id e he hnot hthere => ?_,
    fun id e result he hstage => ?_, fun g id hstep hlt' hbefore hafter => ?_⟩
  · refine hrun.unadmitted hlt he ?_
    have hparted := (LooseRun.parted hrun he).2
    have hunheld : ¬e.stage.Permitted := fun h => hnot (mem_holders_iff.2 ⟨e, he, h⟩)
    have hstays : e.stage ≠ .gone := fun h => by
      cases (hparted.done_iff.2 h).symm.trans hthere
    revert hunheld hstays
    cases e.stage with
    | queued => exact fun _ _ => rfl
    | gone => exact fun _ h => (h rfl).elim
    | _ => exact fun h _ => (h trivial).elim
  · exact ⟨(LooseRun.parted hrun he).2.leaving hstage,
      returns_workerTurn he (hrooted.ids id e he) hstage⟩
  · exact hstep.leaving_of_lost hrooted hlt' (mem_holders_iff.1 hbefore) fun h =>
      hafter (mem_holders_iff.2 h)

/-- A fleet with one permit that knows no kind of steps. -/
def openedNarrow : Fleet := opened (Config.standard.withMaxConcurrentJobs 1) (.new []) .empty

/-- That fleet when the first of two jobs has failed and is about to leave. -/
def narrowFleet : Fleet :=
  ((openedNarrow.submit "edge-1" [.new "flash"]).2.submit "edge-2" [.new "flash"]).2.turns
    (.worker 1 :: .worker 2 :: List.replicate 3 (.worker 1))

/-- The first job has the only permit. The second one waits for it, and one record of it has been
taken. -/
theorem permits_run_narrowFleet :
    Rationed 1 narrowFleet ∧ narrowFleet.holders = [1] ∧
    Unadmitted (Config.standard.withMaxConcurrentJobs 1) (.new []) .empty 2 narrowFleet ∧
    (∃ e, narrowFleet.jobs.get? 2 = some e ∧
      narrowFleet.commitsOf 2 = [e.snapshot.toRecord.toBytes]) ∧
    Returns 1 narrowFleet (narrowFleet.workerTurn 1).fleet := by
  have hrun : FineRun openedNarrow narrowFleet :=
    .head (.step (.submit _ _)) (.head (.step (.submit _ _)) (fineRun_turns _ _))
  have hholders : narrowFleet.holders = [1] := rfl
  obtain ⟨hrationed, hunadmitted, hreturns, -⟩ :=
    permits_run (Nat.le_refl 1) hrun.loose (by decide)
  have hsecond : 2 ∉ narrowFleet.holders := by
    rw [hholders]
    decide
  have hwaits := hunadmitted 2 _ rfl hsecond rfl
  have hleaving : ∃ e result, narrowFleet.jobs.get? 1 = some e ∧ e.stage = .leaving result :=
    ⟨_, _, rfl, rfl⟩
  obtain ⟨e, result, he, hstage⟩ := hleaving
  exact ⟨hrationed, hholders, hwaits, hwaits.record Registry.spares_empty hrun,
    (hreturns 1 e result he hstage).2⟩

end Fleet

end Flotilla
