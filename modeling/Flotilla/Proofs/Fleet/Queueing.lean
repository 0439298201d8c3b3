import Flotilla.Proofs.Fleet.Halting
import Flotilla.Proofs.Fleet.StepEffects

/-!
# Permits and the line for them

A job waits in line for a permit, has one, or has left. In a step at most one job asks for a permit
or gives its own back (`Fleet.Hands`), and nobody stands in line while a permit is free or was lost
(`Fleet.Queueing`): as long as somebody waits, a job has a permit or has been given one. Whoever
stands in line keeps its place until a permit is given back, and then moves up
(`Permits.Stands.release`).
-/

namespace Flotilla

namespace Permits

variable {p : Permits} {job other : JobId} {n : Nat}

/-- Who asks for a permit collects the one that it was given, stays in line, gets in line, or takes
one that is free. -/
theorem acquire_cases (p : Permits) (job : JobId) :
    (job ∈ p.granted ∧ p.acquire job = (true, { p with granted := p.granted.erase job })) ∨
    (job ∉ p.granted ∧ job ∈ p.line ∧ p.acquire job = (false, p)) ∨
    (job ∉ p.granted ∧ job ∉ p.line ∧ p.free = 0 ∧
      p.acquire job = (false, { p with line := p.line ++ [job] })) ∨
    (job ∉ p.granted ∧ job ∉ p.line ∧ p.free ≠ 0 ∧
      p.acquire job = (true, { p with free := p.free - 1 })) := by
  unfold acquire
  by_cases hgranted : job ∈ p.granted
  · rw [if_pos hgranted]
    exact Or.inl ⟨hgranted, rfl⟩
  · rw [if_neg hgranted]
    by_cases hline : job ∈ p.line
    · rw [if_pos hline]
      exact Or.inr (Or.inl ⟨hgranted, hline, rfl⟩)
    · rw [if_neg hline]
      by_cases hfree : p.free = 0
      · rw [if_pos hfree]
        exact Or.inr (Or.inr (Or.inl ⟨hgranted, hline, hfree, rfl⟩))
      · rw [if_neg hfree]
        exact Or.inr (Or.inr (Or.inr ⟨hgranted, hline, hfree, rfl⟩))

/-- A permit that is given back is free, or is given to the first in line. -/
theorem release_cases (p : Permits) :
    (p.line = [] ∧ p.release.2 = { p with free := p.free + 1 }) ∨
    ∃ next line, p.line = next :: line ∧
      p.release.2 = { p with line, granted := p.granted ++ [next] } := by
  unfold release
  cases hline : p.line with
  | nil => exact Or.inl ⟨rfl, rfl⟩
  | cons next line => exact Or.inr ⟨next, line, rfl, rfl⟩

/-- The job stands in line, and so many stand before it. -/
def Stands (p : Permits) (job : JobId) (n : Nat) : Prop :=
  ∃ ahead behind, p.line = ahead ++ job :: behind ∧ ahead.length = n

/-- A line in which somebody stands is not empty. -/
theorem Stands.line_ne_nil (h : p.Stands job n) : p.line ≠ [] := by
  obtain ⟨ahead, behind, hline, -⟩ := h
  rw [hline]
  exact List.append_ne_nil_of_right_ne_nil _ (List.cons_ne_nil _ _)

/-- Whoever asks for a permit moves nobody in line. -/
theorem Stands.acquire (h : p.Stands job n) (other : JobId) :
    (p.acquire other).2.Stands job n := by
  rcases p.acquire_cases other with ⟨-, he⟩ | ⟨-, -, he⟩ | ⟨-, -, -, he⟩ | ⟨-, -, -, he⟩ <;>
    rw [he]
  · exact h
  · exact h
  · obtain ⟨ahead, behind, hline, hlength⟩ := h
    refine ⟨ahead, behind ++ [other], ?_, hlength⟩
    dsimp only
    rw [hline, List.append_assoc, List.cons_append]
  · exact h

/-- With every permit that is given back those in line move up. -/
theorem Stands.release (h : p.Stands job n) :
    job ∈ p.release.2.granted ∨ ∃ k < n, p.release.2.Stands job k := by
  obtain ⟨ahead, behind, hline, rfl⟩ := h
  rcases p.release_cases with ⟨hempty, -⟩ | ⟨next, line, hfirst, he⟩
  · rw [hline] at hempty
    exact (List.append_ne_nil_of_right_ne_nil _ (List.cons_ne_nil _ _) hempty).elim
  · rw [he]
    cases ahead with
    | nil =>
      obtain rfl : next = job := (List.cons.inj (hfirst.symm.trans hline)).1
      exact Or.inl (List.mem_append_right _ (List.mem_singleton_self _))
    | cons first ahead =>
      have hrest : line = ahead ++ job :: behind := (List.cons.inj (hfirst.symm.trans hline)).2
      exact Or.inr ⟨ahead.length, Nat.lt_succ_self _, ahead, behind, hrest, rfl⟩

/-- Who gets no permit stands in line. -/
theorem stands_of_acquire (h : (p.acquire job).1 = false) :
    ∃ n, (p.acquire job).2.Stands job n := by
  rcases p.acquire_cases job with ⟨-, he⟩ | ⟨-, hline, he⟩ | ⟨-, -, -, he⟩ | ⟨-, -, -, he⟩ <;>
    rw [he] at h ⊢
  · cases h
  · obtain ⟨ahead, behind, hsplit⟩ := List.append_of_mem hline
    exact ⟨ahead.length, ahead, behind, hsplit, rfl⟩
  · exact ⟨p.line.length, p.line, [], rfl, rfl⟩
  · cases h

/-- A permit that was granted is there to be taken. -/
theorem acquire_of_granted (h : job ∈ p.granted) : (p.acquire job).1 = true := by
  rw [acquire, if_pos h]

/-- A permit that was granted is not taken by others. -/
theorem granted_acquire (h : job ∈ p.granted) (hne : job ≠ other) :
    job ∈ (p.acquire other).2.granted := by
  rcases p.acquire_cases other with ⟨-, he⟩ | ⟨-, -, he⟩ | ⟨-, -, -, he⟩ | ⟨-, -, -, he⟩ <;>
    rw [he]
  · exact (List.mem_erase_of_ne hne).2 h
  all_goals exact h

/-- A permit that was granted stays granted when others give theirs back. -/
theorem granted_release (h : job ∈ p.granted) : job ∈ p.release.2.granted := by
  rcases p.release_cases with ⟨-, he⟩ | ⟨next, line, -, he⟩ <;> rw [he]
  · exact h
  · exact List.mem_append_left _ h

end Permits

/-- The stages at which a worker has a permit. -/
def Stage.Permitted : Stage → Prop
  | .queued | .gone => False
  | .moving .. | .resting .. | .choosing | .starting _ | .acting .. | .waiting .. | .succeeding _
  | .pausing _ | .backingOff .. | .leaving _ => True

namespace JobEntry

variable {e e' : JobEntry} {config : Config} {run : StepRun} {f : Fleet} {id : JobId}

private theorem permitted_conclude (e : JobEntry) (config : Config) (event : JobEvent)
    (failure : Option Fault) : (e.conclude config event failure).stage.Permitted := by
  rcases e.conclude_cases config event failure with ⟨-, h⟩ | ⟨-, h⟩ <;> rw [h] <;> trivial

private theorem permitted_choose (e : JobEntry) (config : Config) (registry : Registry) :
    (e.choose config registry).stage.Permitted := by
  rcases e.choose_cases config registry with
    ⟨-, h⟩ | ⟨-, -, h⟩ | ⟨-, s, fault, -, -, h⟩ | ⟨-, s, d, -, -, h⟩ <;> rw [h]
  · trivial
  · exact e.permitted_conclude config _ _
  · exact permitted_conclude _ config _ _
  · trivial

private theorem permitted_attemptFailed (e : JobEntry) (config : Config) (run : StepRun) (fault :
    Fault) :
    (e.attemptFailed config run fault).stage.Permitted := by
  rcases e.attemptFailed_cases config run fault with
    ⟨-, h⟩ | ⟨-, -, h⟩ | ⟨-, -, -, -, h⟩ <;> rw [h]
  · trivial
  · exact permitted_conclude _ config _ _
  · trivial

private theorem permitted_backOff (e : JobEntry) (now : Nat) (run : StepRun) :
    (e.backOff now run).stage.Permitted := by
  rcases e.backOff_cases now run with ⟨-, h⟩ | ⟨-, h⟩ <;> rw [h] <;> trivial

private theorem permitted_moved (e : JobEntry) (config : Config) (event : JobEvent) :
    (e.moved config event).stage.Permitted := by
  cases event <;> trivial

private theorem permitted_moveRefused (e : JobEntry) (now : Nat) (event : JobEvent) (policy :
    RetryPolicy) (tries : UInt32) (fault : Fault) :
    (e.moveRefused now event policy tries fault).stage.Permitted := by
  rcases e.moveRefused_cases now event policy tries fault with
    ⟨-, -, h⟩ | ⟨-, ⟨-, h⟩ | ⟨-, h⟩⟩ <;> rw [h] <;> trivial

/-- A worker whose program has come to something has its permit still. -/
theorem permitted_afterRun (e : JobEntry) (config : Config) (run : StepRun)
    (result : Suspension (Except Fault Unit) ⊕ Except Fault Unit) :
    (e.afterRun config run result).stage.Permitted := by
  rcases result with suspension | fault | ⟨⟩
  · trivial
  · exact e.permitted_attemptFailed config run fault
  · trivial

/-- A worker keeps its permit until it leaves. -/
theorem permitted_of_brings (h : e.stage.Permitted) (hstays : ∀ result, e.stage ≠ .leaving result)
    (hbrings : (e.work f id).Brings f id e e') : e'.stage.Permitted := by
  cases hwork : e.work f id with
  | change e₁ =>
    rw [hwork] at hbrings
    obtain rfl := hbrings
    cases changes_of_work hwork with
    | stays => exact h
    | admitted | rested | stopped | resumed => trivial
    | misplaced => exact permitted_moveRefused ..
    | chose => exact permitted_choose ..
    | left hstage => exact (hstays _ hstage).elim
  | record job cancels next =>
    rw [hwork] at hbrings
    have hnext (result : Except Fault Unit) (job : Job) (e : JobEntry) :
        (next result job e).stage.Permitted := by
      rcases record_cases hwork with ⟨event, policy, tries, state, -, -, -, -, rfl⟩ |
        ⟨run, -, -, -, rfl⟩ | ⟨run, -, -, -, rfl⟩ | ⟨run, -, -, -, rfl⟩
      · cases result with
        | ok => exact permitted_moved ..
        | error fault => exact permitted_moveRefused ..
      · cases result with
        | ok => trivial
        | error fault => exact permitted_attemptFailed ..
      · cases result with
        | ok => trivial
        | error fault => exact permitted_attemptFailed ..
      · exact permitted_backOff ..
    rcases hbrings with ⟨fault, -, rfl⟩ | ⟨-, rfl⟩ <;> exact hnext _ _ _
  | perform run program =>
    rw [hwork] at hbrings
    obtain ⟨e₁, -, rfl⟩ := hbrings
    exact permitted_afterRun ..

/-- After a turn a worker has a permit, or nothing has changed, or it has left. -/
theorem permitted_or_left_of_brings (hbrings : (e.work f id).Brings f id e e') :
    e'.stage.Permitted ∨ e' = e ∨ ∃ result, e.stage = .leaving result ∧ e' = e.left result := by
  cases hstage : e.stage with
  | queued =>
    rw [work, hstage] at hbrings
    dsimp only at hbrings
    split at hbrings <;> obtain rfl := hbrings
    · exact Or.inl trivial
    · exact Or.inr (Or.inl rfl)
  | leaving result =>
    rw [work, hstage] at hbrings
    exact Or.inr (Or.inr ⟨result, rfl, hbrings⟩)
  | gone =>
    rw [work, hstage] at hbrings
    exact Or.inr (Or.inl hbrings)
  | _ =>
    have hpermitted : e.stage.Permitted := by rw [hstage]; trivial
    have hstays (result : Except Fault Unit) : e.stage ≠ .leaving result := by
      rw [hstage]
      rintro ⟨⟩
    exact Or.inl (permitted_of_brings hpermitted hstays hbrings)

end JobEntry

namespace Fleet

variable {f g : Fleet} {id : JobId} {e : JobEntry} {may : String → Prop}

/-- What a turn of the worker of a job at a stage makes of the permits. -/
def handed (p : Permits) (id : JobId) : Stage → Permits
  | .queued => (p.acquire id).2
  | .leaving _ => p.release.2
  | .moving .. | .resting .. | .choosing | .starting _ | .acting .. | .waiting .. | .succeeding _
  | .pausing _ | .backingOff .. | .gone => p

private theorem Works.permits_eq {work : Work} (h : f.Works id e work g)
    (hwork : ∀ e', work ≠ .change e') : g.permits = f.permits := by
  cases h with
  | change e' agenda permits => exact (hwork e' rfl).elim
  | refused | taken => rfl
  | @performed run program result g e' before agenda hrun hentry =>
    have hran := ran_run id e.job.target program { f with agenda := before }
    rw [hrun] at hran
    exact hran.permits

private theorem permits_sleepUntil (f : Fleet) (id : JobId) (wakeAt : Nat)
    (change : JobEntry → JobEntry) : (f.sleepUntil id wakeAt change).fleet.permits = f.permits := by
  unfold sleepUntil
  split <;> rfl

private theorem permits_leave (f : Fleet) (id : JobId) (result : Except Fault Unit) :
    (f.leave id result).fleet.permits = f.permits.release.2 := by
  unfold leave
  generalize f.permits.release = r
  obtain ⟨next, permits⟩ := r
  cases next <;> rfl

/-- What the turn of a worker does to the permits depends on its stage. -/
theorem permits_workerTurn (he : f.jobs.get? id = some e) (hid : e.job.id = id) :
    (f.workerTurn id).fleet.permits = handed f.permits id e.stage := by
  have hworks := workerTurn_works he hid
  cases hstage : e.stage with
  | queued =>
    rw [workerTurn, he]
    dsimp only
    rw [hstage]
    dsimp only [handed]
    generalize f.permits.acquire id = r
    obtain ⟨got, permits⟩ := r
    cases got <;> rfl
  | starting run | succeeding run | pausing run =>
    refine hworks.permits_eq fun e' hwork => ?_
    rw [JobEntry.work, hstage] at hwork
    cases hwork
  | moving event policy tries =>
    cases hnext : e.job.state.next? event with
    | none =>
      rw [workerTurn, he]
      dsimp only
      rw [hstage]
      dsimp only
      rw [move, hnext]
      rfl
    | some state =>
      refine hworks.permits_eq fun e' hwork => ?_
      rw [JobEntry.work, hstage] at hwork
      dsimp only at hwork
      rw [hnext] at hwork
      cases hwork
  | acting run program =>
    by_cases hstop : e.stop = true
    · rw [workerTurn, he]
      dsimp only
      rw [hstage]
      dsimp only
      rw [if_pos hstop]
      rfl
    · refine hworks.permits_eq fun e' hwork => ?_
      rw [JobEntry.work, hstage] at hwork
      dsimp only at hwork
      rw [if_neg hstop] at hwork
      cases hwork
  | waiting run suspension =>
    by_cases hstop : e.stop = true
    · rw [workerTurn, he]
      dsimp only
      rw [hstage]
      dsimp only
      rw [if_pos hstop]
      rfl
    · cases hresume : f.resume? suspension with
      | none =>
        rw [workerTurn, he]
        dsimp only
        rw [hstage]
        dsimp only
        rw [if_neg hstop, hresume]
        rfl
      | some program =>
        refine hworks.permits_eq fun e' hwork => ?_
        rw [JobEntry.work, hstage] at hwork
        dsimp only at hwork
        rw [if_neg hstop, hresume] at hwork
        cases hwork
  | resting event policy tries wakeAt =>
    rw [workerTurn, he]
    dsimp only
    rw [hstage]
    exact permits_sleepUntil ..
  | backingOff run wakeAt =>
    rw [workerTurn, he]
    dsimp only
    rw [hstage]
    dsimp only
    split
    · rfl
    · exact permits_sleepUntil ..
  | leaving result =>
    rw [workerTurn, he]
    dsimp only
    rw [hstage]
    exact f.permits_leave id result
  | choosing | gone =>
    rw [workerTurn, he]
    dsimp only
    rw [hstage]
    rfl

/-- A step leaves the permits alone, or is a turn of a worker. -/
theorem Step.permits (h : Step may f g) (hf : f.Rooted) :
    g.permits = f.permits ∨ ∃ id e, f.jobs.get? id = some e ∧ g = (f.workerTurn id).fleet := by
  rcases h.split hf.callers with hbeside | rfl | ⟨writes, reads, -, rfl⟩ | ⟨id, rfl⟩ |
    ⟨target, steps, rfl⟩ | ⟨id, rfl⟩
  · exact Or.inl hbeside.aside.permits
  · exact Or.inl f.aside_readerTurn.permits
  · exact Or.inl rfl
  · cases he : f.jobs.get? id with
    | none =>
      rw [workerTurn_of_none he]
      exact Or.inl rfl
    | some e => exact Or.inr ⟨id, e, he, rfl⟩
  · rcases f.submit_new target steps with ⟨fault, m, hsubmit, -⟩ |
      ⟨job, tx, m, agenda, -, hsubmit, -⟩ <;>
    · rw [hsubmit]
      exact Or.inl rfl
  · exact Or.inl (f.ran_stop id).permits

/-- The job waits for a permit. -/
def Queues (id : JobId) (f : Fleet) : Prop :=
  ∃ e, f.jobs.get? id = some e ∧ e.stage = .queued

/-- The job has a permit. -/
def HasPermit (id : JobId) (f : Fleet) : Prop :=
  ∃ e, f.jobs.get? id = some e ∧ e.stage.Permitted

/-- Whoever stands in line has no permit. -/
theorem Queues.not_hasPermit (h : f.Queues id) : ¬f.HasPermit id := by
  rintro ⟨e, he, hpermitted⟩
  obtain ⟨e₁, he₁, hqueued⟩ := h
  cases he.symm.trans he₁
  rw [hqueued] at hpermitted
  exact hpermitted

/-- The job waits for a permit as before, or has one as before. -/
structure Stays (id : JobId) (f g : Fleet) : Prop where
  queues : f.Queues id → g.Queues id
  hasPermit : f.HasPermit id → g.HasPermit id

/-- A job that nothing happens to keeps its place. -/
theorem stays_of_eq (h : g.jobs.get? id = f.jobs.get? id) : Stays id f g := by
  refine ⟨?_, ?_⟩
  · rintro ⟨e, he, hstage⟩
    exact ⟨e, h.trans he, hstage⟩
  · rintro ⟨e, he, hstage⟩
    exact ⟨e, h.trans he, hstage⟩

/-- Marks leave a job its place. -/
theorem stays_of_marked (h : Option.Rel JobEntry.Marked (f.jobs.get? id) (g.jobs.get? id)) :
    Stays id f g := by
  have hsame {e : JobEntry} (he : f.jobs.get? id = some e) :
      ∃ e', g.jobs.get? id = some e' ∧ e'.stage = e.stage := by
    rw [he] at h
    cases hentry : g.jobs.get? id with
    | none => rw [hentry] at h; cases h
    | some e' =>
      rw [hentry] at h
      cases h with
      | some hm => exact ⟨e', rfl, hm.same.stage⟩
  refine ⟨?_, ?_⟩
  · rintro ⟨e, he, hstage⟩
    obtain ⟨e', he', heq⟩ := hsame he
    exact ⟨e', he', heq.trans hstage⟩
  · rintro ⟨e, he, hstage⟩
    obtain ⟨e', he', heq⟩ := hsame he
    exact ⟨e', he', heq ▸ hstage⟩

/-- What a step does to the permits and the places of the jobs. -/
inductive Hands (f g : Fleet) : Prop
  | nothing (hpermits : g.permits = f.permits) (hstays : ∀ id, Stays id f g)
  /-- A job asks for a permit. -/
  | asks (id : JobId) (hqueues : f.Queues id) (hpermits : g.permits = (f.permits.acquire id).2)
    (hself : if (f.permits.acquire id).1 = true then g.HasPermit id else g.Queues id)
    (hothers : ∀ job, job ≠ id → Stays job f g)
  /-- A job leaves, and its permit is given back. -/
  | leaves (id : JobId) (hpermit : f.HasPermit id) (hpermits : g.permits = f.permits.release.2)
    (hleft : g.HasLeft id) (hothers : ∀ job, job ≠ id → Stays job f g)

/-- The turn of a worker moves the permits and the place of its job at most. -/
theorem hands_workerTurn (he : f.jobs.get? id = some e) (hid : e.job.id = id) :
    Hands f (f.workerTurn id).fleet := by
  have hworks := workerTurn_works he hid
  have hpermits := permits_workerTurn he hid
  have hothers (job : JobId) (hjob : job ≠ id) : Stays job f (f.workerTurn id).fleet :=
    stays_of_eq (hworks.workerFrame.others job hjob)
  obtain ⟨e', he', hbrings⟩ := hworks.brings he
  by_cases hqueued : e.stage = .queued
  · rw [hqueued] at hpermits
    refine .asks id ⟨e, he, hqueued⟩ hpermits ?_ hothers
    rw [JobEntry.work, hqueued] at hbrings
    dsimp only at hbrings
    split at hbrings
    · next hgot =>
      obtain rfl := hbrings
      rw [if_pos hgot]
      exact ⟨_, he', trivial⟩
    · next hgot =>
      obtain rfl := hbrings
      rw [if_neg hgot]
      exact ⟨_, he', hqueued⟩
  by_cases hleaving : ∃ result, e.stage = .leaving result
  · obtain ⟨result, hleaving⟩ := hleaving
    rw [hleaving] at hpermits
    refine .leaves id ⟨e, he, by rw [hleaving]; trivial⟩ hpermits ⟨e', he', ?_⟩ hothers
    rw [JobEntry.work, hleaving] at hbrings
    obtain rfl := hbrings
    rfl
  · have hstays : Stays id f (f.workerTurn id).fleet := by
      refine ⟨?_, ?_⟩
      · rintro ⟨e₁, he₁, hstage⟩
        cases he.symm.trans he₁
        exact (hqueued hstage).elim
      · rintro ⟨e₁, he₁, hstage⟩
        cases he.symm.trans he₁
        exact ⟨e', he', JobEntry.permitted_of_brings hstage
          (fun result hresult => hleaving ⟨result, hresult⟩) hbrings⟩
    refine .nothing ?_ fun job => ?_
    · rw [hpermits]
      cases hstage : e.stage with
      | queued => exact (hqueued hstage).elim
      | leaving result => exact (hleaving ⟨result, hstage⟩).elim
      | _ => rfl
    · by_cases hjob : job = id
      · exact hjob ▸ hstays
      · exact hothers job hjob

/-- Whoever leaves the permits alone but in turns of workers hands them on like that, as long as
numbers last. -/
theorem Leads.hands (h : Leads f g) (hf : f.Rooted)
    (hpermits : g.permits = f.permits ∨
      ∃ id e, f.jobs.get? id = some e ∧ g = (f.workerTurn id).fleet)
    (hlt : g.submitted < 2 ^ 64) : Hands f g := by
  by_cases hturn : ∃ id e, f.jobs.get? id = some e ∧ g = (f.workerTurn id).fleet
  · obtain ⟨id, e, he, rfl⟩ := hturn
    exact hands_workerTurn he (hf.ids id e he)
  · refine .nothing (hpermits.resolve_right hturn) fun id => ?_
    cases h.effects id with
    | beside hentry _ => exact stays_of_marked hentry
    | @turn e e' he _ hg _ _ => exact (hturn ⟨id, e, he, hg⟩).elim
    | submitted target steps hid hsubmitted _ _ =>
      have hnew (e : JobEntry) (he : f.jobs.get? id = some e) : False :=
        nextId_ne (hf.given id e he) (hsubmitted ▸ hlt) hid
      refine ⟨?_, ?_⟩
      · rintro ⟨e, he, -⟩
        exact (hnew e he).elim
      · rintro ⟨e, he, -⟩
        exact (hnew e he).elim

/-- A step moves the permits and the places of at most one job. -/
theorem Step.hands (h : Step may f g) (hf : f.Rooted) (hlt : g.submitted < 2 ^ 64) :
    Hands f g :=
  (h.leads hf).hands hf (h.permits hf) hlt

/-- A stop that comes in two strokes leaves the permits alone. -/
theorem Loose.permits (h : Loose f g) (hf : f.Rooted) :
    g.permits = f.permits ∨ ∃ id e, f.jobs.get? id = some e ∧ g = (f.workerTurn id).fleet := by
  cases h with
  | step h => exact h.permits hf
  | fine h =>
    cases h with
    | step h => exact h.permits hf
    | claim | raise => exact Or.inl rfl

/-- So it does whoever writes, and however a stop comes. -/
theorem Loose.hands (h : Loose f g) (hf : f.Rooted) (hlt : g.submitted < 2 ^ 64) : Hands f g :=
  (h.leads hf).hands hf (h.permits hf) hlt

/-- While jobs wait no permit is free, and a permit that is not free has been given to a job. -/
structure Queueing (f : Fleet) : Prop where
  full : f.permits.line ≠ [] → f.permits.free = 0
  taken : f.permits.free = 0 → f.permits.granted ≠ [] ∨ ∃ id, f.HasPermit id
  line : ∀ id ∈ f.permits.line, f.Queues id
  granted : ∀ id ∈ f.permits.granted, f.Queues id
  once : (f.permits.granted ++ f.permits.line).Nodup

/-- Before anybody asks, permits are in order. -/
theorem queueing_new {n : Nat} (hn : n ≠ 0) (h : f.permits = .new n) : f.Queueing where
  full hline := by
    rw [h] at hline
    exact (hline rfl).elim
  taken hfree := by
    rw [h] at hfree
    exact (hn hfree).elim
  line id hid := by
    rw [h] at hid
    cases hid
  granted id hid := by
    rw [h] at hid
    cases hid
  once := by
    rw [h]
    exact List.nodup_nil

/-- Permits are still in order after a job has asked for one. -/
theorem Queueing.asks (h : f.Queueing) (hpermits : g.permits = (f.permits.acquire id).2)
    (hself : if (f.permits.acquire id).1 = true then g.HasPermit id else g.Queues id)
    (hothers : ∀ job, job ≠ id → Stays job f g) (hqueues : f.Queues id) : g.Queueing := by
  have hpermitted : (∃ job, f.HasPermit job) → ∃ job, g.HasPermit job := by
    rintro ⟨job, hpermit⟩
    refine ⟨job, (hothers job ?_).hasPermit hpermit⟩
    rintro rfl
    exact hqueues.not_hasPermit hpermit
  have hkept (job : JobId) (hne : job ≠ id) (hold : f.Queues job) : g.Queues job :=
    (hothers job hne).queues hold
  have hall (hself : g.Queues id) (job : JobId) (hold : f.Queues job) : g.Queues job := by
    by_cases hjob : job = id
    · exact hjob ▸ hself
    · exact hkept job hjob hold
  rcases f.permits.acquire_cases id with ⟨hgranted, he⟩ | ⟨hnew, hline, he⟩ |
    ⟨hnew, hline, hfree, he⟩ | ⟨hnew, hline, hfree, he⟩ <;> rw [he] at hpermits hself <;>
    dsimp only at hpermits hself
  · rw [if_pos rfl] at hself
    -- the permit is collected, and the job is no longer among those that were given one
    have honce := h.once.erase id
    rw [List.erase_append_left _ hgranted] at honce
    have hgone : id ∉ f.permits.granted.erase id ++ f.permits.line := by
      have hmem := h.once.not_mem_erase (a := id)
      rwa [List.erase_append_left _ hgranted] at hmem
    refine ⟨?_, ?_, ?_, ?_, ?_⟩ <;> rw [hpermits]
    · exact h.full
    · exact fun _ => Or.inr ⟨id, hself⟩
    · intro job hjob
      refine hkept job ?_ (h.line job hjob)
      rintro rfl
      exact hgone (List.mem_append_right _ hjob)
    · intro job hjob
      refine hkept job ?_ (h.granted job (List.mem_of_mem_erase hjob))
      rintro rfl
      exact hgone (List.mem_append_left _ hjob)
    · exact honce
  · rw [if_neg Bool.false_ne_true] at hself
    refine ⟨?_, ?_, ?_, ?_, ?_⟩ <;> rw [hpermits]
    · exact h.full
    · exact fun hfree => (h.taken hfree).imp_right hpermitted
    · exact fun job hjob => hall hself job (h.line job hjob)
    · exact fun job hjob => hall hself job (h.granted job hjob)
    · exact h.once
  · rw [if_neg Bool.false_ne_true] at hself
    refine ⟨?_, ?_, ?_, ?_, ?_⟩ <;> rw [hpermits]
    · exact fun _ => hfree
    · exact fun hfree => (h.taken hfree).imp_right hpermitted
    · intro job hjob
      rcases List.mem_append.1 hjob with hold | hself'
      · exact hall hself job (h.line job hold)
      · obtain rfl := List.mem_singleton.1 hself'
        exact hself
    · exact fun job hjob => hall hself job (h.granted job hjob)
    · dsimp only
      rw [← List.append_assoc]
      refine h.once.append (List.nodup_singleton id) ?_
      intro job hjob hsingle
      obtain rfl := List.mem_singleton.1 hsingle
      rcases List.mem_append.1 hjob with hold | hold
      · exact hnew hold
      · exact hline hold
  · rw [if_pos rfl] at hself
    have hempty : f.permits.line = [] := by
      by_contra hne
      exact hfree (h.full hne)
    refine ⟨?_, ?_, ?_, ?_, ?_⟩ <;> rw [hpermits]
    · exact fun hne => (hne hempty).elim
    · exact fun _ => Or.inr ⟨id, hself⟩
    · intro job hjob
      refine hkept job ?_ (h.line job hjob)
      rintro rfl
      exact hline hjob
    · intro job hjob
      refine hkept job ?_ (h.granted job hjob)
      rintro rfl
      exact hnew hjob
    · exact h.once

/-- No step loses a permit. -/
theorem Queueing.hands (h : f.Queueing) (hands : Hands f g) : g.Queueing := by
  cases hands with
  | nothing hpermits hstays =>
    refine ⟨?_, ?_, ?_, ?_, ?_⟩ <;> rw [hpermits]
    · exact h.full
    · refine fun hfree => (h.taken hfree).imp_right ?_
      rintro ⟨id, hpermit⟩
      exact ⟨id, (hstays id).hasPermit hpermit⟩
    · exact fun id hid => (hstays id).queues (h.line id hid)
    · exact fun id hid => (hstays id).queues (h.granted id hid)
    · exact h.once
  | asks id hqueues hpermits hself hothers => exact h.asks hpermits hself hothers hqueues
  | leaves id hpermit hpermits hleft hothers =>
    have hkept (job : JobId) (hold : f.Queues job) : g.Queues job := by
      refine (hothers job ?_).queues hold
      rintro rfl
      exact hold.not_hasPermit hpermit
    rcases f.permits.release_cases with ⟨hempty, he⟩ | ⟨next, line, hfirst, he⟩ <;>
      rw [he] at hpermits
    · refine ⟨?_, ?_, ?_, ?_, ?_⟩ <;> rw [hpermits]
      · exact fun hne => (hne hempty).elim
      · exact fun hzero => (Nat.succ_ne_zero _ hzero).elim
      · exact fun job hjob => hkept job (h.line job hjob)
      · exact fun job hjob => hkept job (h.granted job hjob)
      · exact h.once
    · have hline {job : JobId} (hjob : job ∈ next :: line) : g.Queues job :=
        hkept job (h.line job (hfirst ▸ hjob))
      refine ⟨?_, ?_, ?_, ?_, ?_⟩ <;> rw [hpermits]
      · exact fun _ => h.full (hfirst ▸ List.cons_ne_nil _ _)
      · exact fun _ => Or.inl (List.append_ne_nil_of_right_ne_nil _ (List.cons_ne_nil _ _))
      · exact fun job hjob => hline (List.mem_cons_of_mem _ hjob)
      · intro job hjob
        rcases List.mem_append.1 hjob with hold | hnext
        · exact hkept job (h.granted job hold)
        · exact hline (List.mem_cons.2 (Or.inl (List.mem_singleton.1 hnext)))
      · have honce := h.once
        rw [hfirst] at honce
        dsimp only
        rw [List.append_assoc, List.singleton_append]
        exact honce

end Fleet

end Flotilla
