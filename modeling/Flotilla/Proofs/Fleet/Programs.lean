import Flotilla.Fleet.Program
import Flotilla.Proofs.Fleet.Recording
import Flotilla.Proofs.Requests.Service

/-!
# What the program of a step does to a fleet

A program acts on behalf of its job. It can send requests in the job's name, work with the store,
leave notes and ask for a stop of the job, and it touches no other job and no other requests
(`Fleet.Ran`).
-/

namespace Flotilla

/-- The entry of a job that has been asked to stop. -/
def JobEntry.askedToStop (e : JobEntry) : JobEntry :=
  { e with phase := .stopRequested, stop := true }

/-- What others than its worker can make of the entry of a job. -/
def JobEntry.MayBeAsked (e e' : JobEntry) : Prop :=
  e' = e ∨ (e.phase = .running ∧ e' = e.askedToStop)

private theorem JobEntry.MayBeAsked.trans {e e' e'' : JobEntry} (h : e.MayBeAsked e')
    (k : e'.MayBeAsked e'') : e.MayBeAsked e'' := by
  rcases h with rfl | ⟨hphase, rfl⟩
  · exact k
  · rcases k with rfl | ⟨hphase', -⟩
    · exact Or.inr ⟨hphase, rfl⟩
    · cases hphase'

namespace Fleet

/-- Looking up the record of a job is reading its key. -/
theorem persisted_snd (f : Fleet) (job : JobId) :
    (f.persisted job).2 = (f.read (Job.key job)).2 := by
  rw [persisted]
  generalize f.read (Job.key job) = r
  obtain ⟨result, g⟩ := r
  cases result with
  | error fault => rfl
  | ok record => cases record <;> rfl

/-- Reading the store can use up an outage and changes nothing else. -/
theorem persisted_eq (f : Fleet) (job : JobId) :
    ∃ m, (f.persisted job).2 = { f with transactions := m } ∧
      m.store.store = f.transactions.store.store := by
  rw [persisted_snd]
  exact ⟨_, rfl, f.transactions.store.store_read (Job.key job)⟩

/-- A stop is refused, or the job has been asked already, or it runs and is asked now. -/
theorem stop_cases (f : Fleet) (job : JobId) :
    (∃ fault m, f.stop job = (.error fault, { f with transactions := m }) ∧
      m.store.store = f.transactions.store.store) ∨
    (∃ e, f.tracked? job = some e ∧ e.phase = .stopRequested ∧ f.stop job = (.ok (), f)) ∨
    (∃ e agenda, f.tracked? job = some e ∧ e.phase = .running ∧
      f.stop job = (.ok (), { f with agenda, jobs := f.jobs.set job e.askedToStop })) := by
  unfold stop
  cases htracked : f.tracked? job with
  | none =>
    obtain ⟨m, hpersisted, hm⟩ := f.persisted_eq job
    left
    dsimp only
    generalize f.persisted job = r at hpersisted ⊢
    obtain ⟨result, g⟩ := r
    dsimp only at hpersisted
    subst hpersisted
    cases result with
    | error fault => exact ⟨_, m, rfl, hm⟩
    | ok known => cases known <;> exact ⟨_, m, rfl, hm⟩
  | some e =>
    dsimp only
    cases hphase : e.phase with
    | running =>
      right; right
      have hget : f.jobs.get? job = some e := (Option.filter_eq_some_iff.1 htracked).1
      have hjobs := Table.modify_of_get? hget fun e =>
        { e with phase := .stopRequested, stop := true }
      dsimp only
      split
      · exact ⟨e, f.agenda.wake (.worker job), rfl, hphase, by rw [wake, modifyJob, hjobs]; rfl⟩
      · exact ⟨e, f.agenda, rfl, hphase, by rw [modifyJob, hjobs]; rfl⟩
    | stopRequested => exact Or.inr (Or.inl ⟨e, rfl, hphase, rfl⟩)
    | queued | finished => exact Or.inl ⟨_, f.transactions, rfl, rfl⟩

/-- Who is told that a stop was accepted finds the phase claimed by a stop. -/
theorem phase_of_stop {f : Fleet} {id : JobId} (h : (f.stop id).1 = .ok ()) :
    ∃ e, (f.stop id).2.jobs.get? id = some e ∧ e.phase = .stopRequested := by
  rcases f.stop_cases id with ⟨fault, m, hstop, -⟩ | ⟨e, htracked, hphase, hstop⟩ |
    ⟨e, agenda, -, -, hstop⟩
  · rw [hstop] at h
    cases h
  · have he : f.jobs.get? id = some e := (Option.filter_eq_some_iff.1 htracked).1
    rw [hstop]
    exact ⟨e, he, hphase⟩
  · rw [hstop]
    exact ⟨e.askedToStop, Table.get?_set_self .., rfl⟩

/-- What somebody acting for a job can do to a fleet. -/
structure Ran (id : JobId) (f g : Fleet) : Prop where
  now : g.now = f.now
  config : g.config = f.config
  registry : g.registry = f.registry
  permits : g.permits = f.permits
  submitted : g.submitted = f.submitted
  callers : g.callers = f.callers
  unread : g.unread = f.unread
  requests : Correlator.Serves (some id) f.correlator g.correlator
  /-- The own job can be asked to stop. -/
  entry : ∀ e, f.jobs.get? id = some e → ∃ e', g.jobs.get? id = some e' ∧ e.MayBeAsked e'
  others : ∀ job, job ≠ id → g.jobs.get? job = f.jobs.get? job

variable {id : JobId} {f g h : Fleet}

/-- Whoever leaves all jobs alone can be acting for any of them. -/
theorem Ran.of_jobs_eq (hjobs : g.jobs = f.jobs) (hnow : g.now = f.now)
    (hconfig : g.config = f.config) (hregistry : g.registry = f.registry)
    (hpermits : g.permits = f.permits) (hsubmitted : g.submitted = f.submitted)
    (hcallers : g.callers = f.callers) (hunread : g.unread = f.unread)
    (hrequests : Correlator.Serves (some id) f.correlator g.correlator) : Ran id f g where
  now := hnow
  config := hconfig
  registry := hregistry
  permits := hpermits
  submitted := hsubmitted
  callers := hcallers
  unread := hunread
  requests := hrequests
  entry e he := ⟨e, hjobs ▸ he, Or.inl rfl⟩
  others job _ := by rw [hjobs]

private theorem Ran.refl (id : JobId) (f : Fleet) : Ran id f f :=
  .of_jobs_eq rfl rfl rfl rfl rfl rfl rfl rfl (.refl _ _)

/-- Acting for a job twice over is acting for it. -/
theorem Ran.trans (hfg : Ran id f g) (hgh : Ran id g h) : Ran id f h where
  now := hgh.now.trans hfg.now
  config := hgh.config.trans hfg.config
  registry := hgh.registry.trans hfg.registry
  permits := hgh.permits.trans hfg.permits
  submitted := hgh.submitted.trans hfg.submitted
  callers := hgh.callers.trans hfg.callers
  unread := hgh.unread.trans hfg.unread
  requests := hfg.requests.trans hgh.requests
  entry e he := by
    obtain ⟨e', he', hasked⟩ := hfg.entry e he
    obtain ⟨e'', he'', hasked'⟩ := hgh.entry e' he'
    exact ⟨e'', he'', hasked.trans hasked'⟩
  others job hjob := (hgh.others job hjob).trans (hfg.others job hjob)

/-- Asking the store leaves the requests alone. -/
theorem correlator_answerStore (f : Fleet) (q : StoreAsk) :
    (f.answerStore q).2.correlator = f.correlator := by
  unfold answerStore
  dsimp only
  split <;> rfl

/-- Asking the store is something that somebody acting for a job can do. -/
theorem ran_answerStore (id : JobId) (f : Fleet) (q : StoreAsk) : Ran id f (f.answerStore q).2 := by
  unfold answerStore
  dsimp only
  split <;> exact .of_jobs_eq rfl rfl rfl rfl rfl rfl rfl rfl (.refl _ _)

/-- What sending a request does, the agenda and the channel aside. -/
theorem send_eq (f : Fleet) (request : Request) (timeout : Nat) :
    ∃ agenda broker events,
      (f.send request timeout).2 = { f with
        agenda
        broker
        chronicle := f.chronicle ++ events
        correlator := (f.correlator.send f.now f.broker.publish request timeout).2 } ∧
      ∀ e ∈ events, ∃ m, e.2 = .published m := by
  unfold send
  generalize f.correlator.send f.now f.broker.publish request timeout = r
  obtain ⟨result, c⟩ := r
  obtain ⟨agenda, hset⟩ := f.setCorrelator_eq c
  dsimp only
  cases result with
  | error fault =>
    refine ⟨agenda.wake .supervisor, f.broker, [], ?_, nofun⟩
    dsimp only
    rw [hset, List.append_nil]
    rfl
  | ok sent =>
    obtain ⟨handle, broker⟩ := sent
    refine ⟨(agenda.wake .supervisor).wake .delivery, broker,
      [(f.now, .published (c.message handle.key request f.now))], ?_, ?_⟩
    · dsimp only
      rw [hset]
      rfl
    · intro e he
      obtain rfl := List.mem_singleton.1 he
      exact ⟨_, rfl⟩

/-- Sending a request is something that its owner can do. -/
theorem ran_send (f : Fleet) {request : Request} {timeout : Nat}
    (howner : request.owner = some id) :
    Ran id f (f.send request timeout).2 := by
  obtain ⟨agenda, broker, events, hsend, -⟩ := f.send_eq request timeout
  rw [hsend]
  exact .of_jobs_eq rfl rfl rfl rfl rfl rfl rfl rfl
    (howner ▸ f.correlator.serves_send f.now f.broker.publish request timeout)

/-- Asking for a stop is something that somebody acting for a job can do. -/
theorem ran_stop (f : Fleet) (id : JobId) : Ran id f (f.stop id).2 := by
  rcases f.stop_cases id with ⟨fault, m, hstop, -⟩ | ⟨e, -, -, hstop⟩ |
    ⟨e, agenda, htracked, hphase, hstop⟩
  · rw [hstop]
    exact .of_jobs_eq rfl rfl rfl rfl rfl rfl rfl rfl (.refl _ _)
  · rw [hstop]
    exact .refl id f
  · have hget : f.jobs.get? id = some e := (Option.filter_eq_some_iff.1 htracked).1
    rw [hstop]
    refine ⟨rfl, rfl, rfl, rfl, rfl, rfl, rfl, .refl _ _, ?_, ?_⟩
    · intro e₀ he₀
      cases hget.symm.trans he₀
      exact ⟨e.askedToStop, Table.get?_set_self .., Or.inr ⟨hphase, rfl⟩⟩
    · intro job hjob
      exact Table.get?_set_ne _ _ (Ne.symm hjob)

/-- What is kept by everything a program asks for is kept by the program. Where the program goes on
without waiting, and where it stops to wait, the fleet is as it was. -/
theorem run_induct {α : Type} {P : Fleet → Prop} {id : JobId}
    (hstore : ∀ f q, P f → P (f.answerStore q).2)
    (hsend : ∀ f (request : Request) timeout, request.owner = some id → P f →
      P (f.send request timeout).2)
    (hstop : ∀ f, P f → P (f.stop id).2)
    (hnote : ∀ f note, P f → P (f.chronicled (.noted id note)))
    (target : String) (program : Program Stepping α) {f : Fleet} (h : P f) :
    P (f.run id target program).2 := by
  induction program generalizing f with
  | done value => exact h
  | ask question next ih =>
    cases question with
    | storing q =>
      cases q with
      | store q => exact ih _ (hstore f q h)
      | sleep span =>
        rw [run]
        split
        · exact ih () h
        · exact h
    | send command payload timeout => exact ih _ (hsend f _ timeout rfl h)
    | await key =>
      rw [run]
      split
      · exact ih _ h
      · exact h
    | stopSelf => exact ih _ (hstop f h)
    | note note => exact ih () (hnote f note h)

/-- A program does what somebody can do who acts for its job. -/
theorem ran_run {α : Type} (id : JobId) (target : String) (program : Program Stepping α)
    (f : Fleet) : Ran id f (f.run id target program).2 := by
  refine run_induct (P := Ran id f) ?_ ?_ ?_ ?_ target program (.refl id f)
  · exact fun g q hg => hg.trans (ran_answerStore id g q)
  · exact fun g request timeout howner hg => hg.trans (g.ran_send howner)
  · exact fun g hg => hg.trans (g.ran_stop id)
  · intro g note hg
    have hnote : Ran id g (g.chronicled (.noted id note)) :=
      .of_jobs_eq rfl rfl rfl rfl rfl rfl rfl rfl (.refl _ _)
    exact hg.trans hnote

private theorem setCorrelator_agenda (f : Fleet) (agenda : Agenda) (c : Correlator) :
    ∃ after, { f with agenda }.setCorrelator c = { f.setCorrelator c with agenda := after } := by
  obtain ⟨_, hset⟩ := f.setCorrelator_eq c
  obtain ⟨after, hset'⟩ := { f with agenda }.setCorrelator_eq c
  exact ⟨after, by rw [hset, hset']⟩

private theorem answerStore_agenda (f : Fleet) (agenda : Agenda) (q : StoreAsk) :
    { f with agenda }.answerStore q =
      ((f.answerStore q).1, { (f.answerStore q).2 with agenda }) := by
  unfold answerStore
  dsimp only
  generalize q.answer f.now f.transactions = r
  obtain ⟨answer, m⟩ := r
  dsimp only
  cases q.event? answer <;> rfl

private theorem send_agenda (f : Fleet) (agenda : Agenda) (request : Request) (timeout : Nat) :
    ∃ after, { f with agenda }.send request timeout =
      ((f.send request timeout).1, { (f.send request timeout).2 with agenda := after }) := by
  unfold send
  dsimp only
  generalize f.correlator.send f.now f.broker.publish request timeout = r
  obtain ⟨result, c⟩ := r
  obtain ⟨after, hset⟩ := f.setCorrelator_agenda agenda c
  dsimp only
  rw [hset]
  cases result with
  | error fault => exact ⟨_, rfl⟩
  | ok sent => exact ⟨_, rfl⟩

private theorem stop_agenda (f : Fleet) (agenda : Agenda) (job : JobId) :
    ∃ after, { f with agenda }.stop job =
      ((f.stop job).1, { (f.stop job).2 with agenda := after }) := by
  have hpersisted : { f with agenda }.persisted job =
      ((f.persisted job).1, { (f.persisted job).2 with agenda }) := by
    unfold persisted Fleet.read
    dsimp only
    generalize f.transactions.store.read (Job.key job) = r
    obtain ⟨result, store⟩ := r
    cases result with
    | error fault => rfl
    | ok record => cases record <;> rfl
  have htracked : { f with agenda }.tracked? job = f.tracked? job := rfl
  unfold stop
  rw [hpersisted, htracked]
  cases f.tracked? job with
  | none =>
    dsimp only
    generalize f.persisted job = r
    obtain ⟨result, g⟩ := r
    cases result with
    | error fault => exact ⟨_, rfl⟩
    | ok known => cases known <;> exact ⟨_, rfl⟩
  | some e =>
    dsimp only
    cases e.phase with
    | running =>
      dsimp only
      split <;> exact ⟨_, rfl⟩
    | stopRequested | queued | finished => exact ⟨_, rfl⟩

/-- What a program comes to does not depend on whose turn it is next. -/
theorem run_agenda {α : Type} (id : JobId) (target : String) (program : Program Stepping α)
    (f : Fleet) (agenda : Agenda) :
    ∃ after, { f with agenda }.run id target program =
      ((f.run id target program).1, { (f.run id target program).2 with agenda := after }) := by
  induction program generalizing f agenda with
  | done value => exact ⟨agenda, rfl⟩
  | ask question next ih =>
    cases question with
    | storing q =>
      cases q with
      | store q =>
        have hanswer := f.answerStore_agenda agenda q
        obtain ⟨after, hrest⟩ := ih (f.answerStore q).1 (f.answerStore q).2 agenda
        refine ⟨after, Eq.trans ?_ hrest⟩
        change run id target (next ({ f with agenda }.answerStore q).1)
          ({ f with agenda }.answerStore q).2 = _
        rw [hanswer]
      | sleep span =>
        rw [run, run]
        split
        · exact ih () f agenda
        · exact ⟨agenda, rfl⟩
    | send command payload timeout =>
      obtain ⟨between, hsend⟩ := f.send_agenda agenda ⟨target, command, payload, some id⟩ timeout
      have hrest := ih ((f.send ⟨target, command, payload, some id⟩ timeout).1.map Handle.key)
        (f.send ⟨target, command, payload, some id⟩ timeout).2 between
      obtain ⟨after, hrest⟩ := hrest
      refine ⟨after, Eq.trans ?_ hrest⟩
      change run id target (next (({ f with agenda }.send _ timeout).1.map Handle.key))
          ({ f with agenda }.send _ timeout).2 = _
      rw [hsend]
    | await key =>
      rw [run, run]
      dsimp only
      cases f.correlator.outcome? key with
      | some outcome => exact ih outcome f agenda
      | none => exact ⟨agenda, rfl⟩
    | stopSelf =>
      obtain ⟨between, hstop⟩ := f.stop_agenda agenda id
      obtain ⟨after, hrest⟩ := ih (f.stop id).1 (f.stop id).2 between
      refine ⟨after, Eq.trans ?_ hrest⟩
      change run id target (next ({ f with agenda }.stop id).1) ({ f with agenda }.stop id).2 = _
      rw [hstop]
    | note note => exact ih () (f.chronicled (.noted id note)) agenda

end Fleet

end Flotilla
