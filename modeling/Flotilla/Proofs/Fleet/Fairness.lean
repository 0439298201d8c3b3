import Flotilla.Proofs.Fleet.FairTurns
import Flotilla.Proofs.Fleet.Queueing
import Flotilla.Proofs.Histories

/-!
# Fair runs

In a fair run every task gets a turn again and again, and time goes on (`Fleet.Fair`). If all jobs
get on in order and whatever their workers wait for was asked for (`Fleet.Progressing`), a worker
with a permit is not held up for ever: it sleeps until a time that comes, or waits for a request
that the supervisor of the deadlines settles at the latest. So it leaves
(`Fleet.FairRun.leaves_of_hasPermit`), its permit goes to the next in line, and everybody in line
has a turn in the end (`Fleet.FairRun.leaves`).
-/

namespace Flotilla

namespace Fleet

variable {f g : Fleet} {id : JobId} {may : String → Prop} {s₀ : Store} {σ : Nat → Fleet}
  {n : Nat}

/-- A step is a turn of the worker of a job, or leaves the job alone but for a stop. -/
theorem Step.guided (h : Step (fun key => ¬IsJobKey key) f g) (hf : f.Rooted)
    (hgiven : id.toNat ≤ f.submitted) (hlt : g.submitted < 2 ^ 64) :
    Guided (fun _ _ => True) id f g := by
  have hbeside (hjobs : g.jobs.get? id = f.jobs.get? id) : Guided (fun _ _ => True) id f g :=
    .of_get?_eq h hjobs
  rcases h.split hf.callers with hb | rfl | ⟨writes, reads, -, rfl⟩ | ⟨job, rfl⟩ |
    ⟨target, steps, rfl⟩ | ⟨job, rfl⟩
  · exact hbeside (by rw [hb.aside.jobs])
  · exact hbeside (by rw [f.aside_readerTurn.jobs])
  · exact hbeside rfl
  · by_cases hjob : id = job
    · subst hjob
      exact .turn fun _ _ => trivial
    · cases he : f.jobs.get? job with
      | none => exact hbeside (by rw [workerTurn_of_none he])
      | some e => exact hbeside ((workerTurn_works he (hf.ids job e he)).workerFrame.others id hjob)
  · rcases f.submit_new target steps with ⟨fault, m, hsubmit, -⟩ |
      ⟨job, tx, m, agenda, -, hsubmit, -⟩ <;> rw [hsubmit] at hbeside hlt ⊢
    · exact hbeside rfl
    · exact hbeside (Table.get?_set_ne _ _ (nextId_ne hgiven hlt))
  · have hran := f.ran_stop job
    by_cases hjob : id = job
    · subst hjob
      refine .beside h ?_
      cases he : f.jobs.get? id with
      | none =>
        have hrel := (f.quiet_stop id).entries id
        rw [he] at hrel
        cases hgone : (f.stop id).2.jobs.get? id with
        | none => exact .none
        | some e => rw [hgone] at hrel; cases hrel
      | some e =>
        obtain ⟨e', he', ha⟩ := hran.entry e he
        rw [he']
        exact .some ha
    · exact hbeside (hran.others id hjob)

/-- Every task gets a turn again and again, and every time comes. -/
structure Fair (σ : Nat → Fleet) : Prop where
  turns : ∀ task n, ∃ m ≥ n, σ (m + 1) = ((σ m).turn task).fleet
  time : ∀ time, ∃ n, ∀ m ≥ n, time ≤ (σ m).now

/-- The request whose reply a program waits for waits itself, or is settled. -/
def Awaited {α : Type} (f : Fleet) : Suspension α → Prop
  | .reply key _ => (∃ request, f.correlator.pending.get? key = some request) ∨
      (f.correlator.outcome? key).isSome
  | .timer .. => True

/-- All jobs get on in order, no permit is lost, and what the workers wait for was asked for. -/
structure Progressing (s₀ : Store) (f : Fleet) : Prop where
  published : Published s₀ f
  rooted : f.Rooted
  correlating : f.correlating = true
  aligned : f.correlator.Aligned
  queueing : f.Queueing
  entries : ∀ id e, f.jobs.get? id = some e →
    ∃ steps, (e.Standing ∧ e.Advances steps f.config) ∧ e.stage.Counted
  awaited : ∀ id e run s, f.jobs.get? id = some e → e.stage = .waiting run s → f.Awaited s

/-- A fair run of such fleets, in which numbers last. -/
structure FairRun (s₀ : Store) (σ : Nat → Fleet) : Prop where
  fair : Fair σ
  steps : ∀ n, Step (fun key => ¬IsJobKey key) (σ n) (σ (n + 1))
  progressing : ∀ n, Progressing s₀ (σ n)
  numbers : ∀ n, (σ n).submitted < 2 ^ 64

namespace FairRun

/-- Every step of a fair run moves permits as steps do. -/
theorem hands (h : FairRun s₀ σ) (n : Nat) : Hands (σ n) (σ (n + 1)) :=
  (h.steps n).hands (h.progressing n).rooted (h.numbers (n + 1))

/-- A task gets a turn when a time has come. -/
theorem turn_after (h : FairRun s₀ σ) (task : Task) (n time : Nat) :
    ∃ m ≥ n, σ (m + 1) = ((σ m).turn task).fleet ∧ time ≤ (σ m).now := by
  obtain ⟨k, hk⟩ := h.fair.time time
  obtain ⟨m, hm, hturn⟩ := h.fair.turns task (max n k)
  exact ⟨m, Nat.le_trans (Nat.le_max_left n k) hm, hturn,
    hk m (Nat.le_trans (Nat.le_max_right n k) hm)⟩

/-- A request that is awaited is settled in the end, at its deadline at the latest. -/
theorem settles (h : FairRun s₀ σ) {key : CorrelationKey} {request : Pending}
    (hpending : (σ n).correlator.pending.get? key = some request) :
    ∃ m ≥ n, ((σ m).correlator.outcome? key).isSome := by
  have hsome : (σ n).correlator.supervisor.queue.deadline? key ≠ none := fun hnone => by
    cases (((h.progressing n).aligned.deadline?_eq_none_iff key).1 hnone).symm.trans hpending
  obtain ⟨deadline, hdeadline⟩ := Option.ne_none_iff_exists'.1 hsome
  obtain ⟨m, hm, hturn, htime⟩ := h.turn_after .supervisor n deadline
  have hwaits := holds_or_happens (n := n) (m := m)
    (P := fun k => (σ k).correlator.pending.get? key = some request ∧
      (σ k).correlator.supervisor.queue.deadline? key = some deadline)
    (Q := fun k => ((σ k).correlator.outcome? key).isSome) ⟨hpending, hdeadline⟩
    (fun k _ hk => ?_) hm
  · rcases hwaits with ⟨hp, hd⟩ | ⟨k, hk, hsettled⟩
    · refine ⟨m + 1, Nat.le_succ_of_le hm, ?_⟩
      have hpolled : (σ (m + 1)).correlator = (σ m).correlator.pollDeadlines (σ m).now := by
        obtain ⟨agenda, hset⟩ :=
          (σ m).setCorrelator_eq ((σ m).correlator.pollDeadlines (σ m).now)
        rw [hturn, turn, supervisorTurn, if_pos (h.progressing m).correlating, hset]
        dsimp only
        split <;> rfl
      have hserves : Correlator.Serves none (σ m).correlator
          ((σ m).correlator.pollDeadlines (σ m).now) :=
        (σ m).correlator.serves_pollDeadlines (σ m).now
      rw [hpolled]
      refine (hserves.kept key request hp).resolve_left ?_
      rw [(h.progressing m).aligned.get?_pending_pollDeadlines, if_pos ⟨deadline, hd, htime⟩]
      exact (Option.some_ne_none request).symm
    · exact ⟨k, hk, hsettled⟩
  · obtain ⟨owner, hserves⟩ := (h.steps k).serves (h.progressing k).rooted
    rcases hserves.kept key request hk.1,
      hserves.deadline (h.progressing k).aligned key request hk.1 with
      ⟨hp | hp, hd | hd⟩
    · exact Or.inr hd
    · exact Or.inl ⟨hp, hd.trans hk.2⟩
    · exact Or.inr hp
    · exact Or.inr hp

/-- From some time on a request that is awaited is settled. -/
theorem settled_after (h : FairRun s₀ σ) {key : CorrelationKey}
    {next : Outcome → Program Stepping (Except Fault Unit)}
    (hawaited : (σ n).Awaited (.reply key next)) :
    ∃ m ≥ n, ∀ k ≥ m, ((σ k).correlator.outcome? key).isSome := by
  have hsettles : ∃ m ≥ n, ((σ m).correlator.outcome? key).isSome := by
    rcases hawaited with ⟨request, hpending⟩ | hsettled
    · exact h.settles hpending
    · exact ⟨n, Nat.le_refl n, hsettled⟩
  obtain ⟨m, hm, hsettled⟩ := hsettles
  exact ⟨m, hm, fun k hk => stays_settled (fun j _ => h.steps j) (fun j => (h.progressing j).rooted)
    hsettled hk⟩

private theorem guided (h : FairRun s₀ σ) (hgiven : id.toNat ≤ (σ n).submitted) {m : Nat} (hm :
    n ≤ m) :
    Guided (fun _ _ => True) id (σ m) (σ (m + 1)) := by
  refine (h.steps m).guided (h.progressing m).rooted ?_ (h.numbers (m + 1))
  induction m, hm using Nat.le_induction with
  | base => exact hgiven
  | succ m _ ih => exact Nat.le_trans ih ((h.steps m).steady (h.progressing m).published.fit).2

/-- A worker that is past the line goes on in the end. -/
theorem goes_on (h : FairRun s₀ σ) (hpermit : (σ n).HasPermit id) :
    ∃ m ≥ n, GoesOn id (σ m) (σ (m + 1)) := by
  obtain ⟨e, he, hpermitted⟩ := hpermit
  refine goes_on_of_turns (fun m hm => h.guided ((h.progressing n).rooted.given id e he) hm)
    (fun m => (h.progressing m).rooted.ids id) (h.turn_after (.worker id)) he ?_ ?_
    fun run key next hstage => h.settled_after ((h.progressing n).awaited id e run _ he hstage)
  · rintro hqueued
    rw [hqueued] at hpermitted
    exact hpermitted
  · rintro hgone
    rw [hgone] at hpermitted
    exact hpermitted

/-- A worker with a permit has it until it leaves. -/
theorem keeps_permit (h : FairRun s₀ σ) (hpermit : (σ n).HasPermit id) {m : Nat} (hm : n ≤ m) :
    (σ m).HasPermit id ∨ ∃ k ≥ n, (σ k).HasLeft id := by
  refine holds_or_happens (P := fun k => (σ k).HasPermit id) hpermit (fun k _ hk => ?_) hm
  cases h.hands k with
  | nothing _ hstays => exact Or.inl ((hstays id).hasPermit hk)
  | asks job hqueues _ _ hothers =>
    refine Or.inl ((hothers id ?_).hasPermit hk)
    rintro rfl
    exact hqueues.not_hasPermit hk
  | leaves job _ _ hleft hothers =>
    by_cases hjob : id = job
    · exact Or.inr (hjob ▸ hleft)
    · exact Or.inl ((hothers id hjob).hasPermit hk)

/-- A worker with a permit leaves in the end. -/
theorem leaves_of_hasPermit (h : FairRun s₀ σ) (hpermit : (σ n).HasPermit id) :
    ∃ m ≥ n, (σ m).HasLeft id := by
  by_contra hnever
  have hkeeps (m : Nat) (hm : n ≤ m) : (σ m).HasPermit id :=
    (h.keeps_permit hpermit hm).resolve_right hnever
  obtain ⟨e, he, -⟩ := hpermit
  obtain ⟨steps, ⟨hstanding, hadvances⟩, hcounted⟩ := (h.progressing n).entries id e he
  have hgiven := (h.progressing n).rooted.given id e he
  have hfree (k : Nat) : ∃ m ≥ k,
      (σ (n + m)).HasLeft id ∨ GoesOn id (σ (n + m)) (σ (n + (m + 1))) := by
    obtain ⟨m, hm, hgoes⟩ := h.goes_on (hkeeps (n + k) (Nat.le_add_right n k))
    obtain ⟨j, rfl⟩ := Nat.exists_eq_add_of_le hm
    rw [Nat.add_assoc] at hgoes
    exact ⟨k + j, Nat.le_add_right k j, Or.inr hgoes⟩
  have hhalts : ∃ m, (σ (n + m)).HasLeft id :=
    halts (h.progressing n).published he hstanding hadvances hcounted
      (fun k => h.guided hgiven (Nat.le_add_right n k)) hfree
  obtain ⟨m, hleft⟩ := hhalts
  exact hnever ⟨n + m, Nat.le_add_right n m, hleft⟩

/-- Who waits for a permit waits until it has one. -/
theorem keeps_waiting (h : FairRun s₀ σ) (hqueues : (σ n).Queues id) {m : Nat} (hm : n ≤ m) :
    (σ m).Queues id ∨ ∃ k ≥ n, (σ k).HasPermit id := by
  refine holds_or_happens (P := fun k => (σ k).Queues id) hqueues (fun k _ hk => ?_) hm
  cases h.hands k with
  | nothing _ hstays => exact Or.inl ((hstays id).queues hk)
  | asks job _ _ hself hothers =>
    by_cases hjob : id = job
    · subst hjob
      split at hself
      · exact Or.inr hself
      · exact Or.inl hself
    · exact Or.inl ((hothers id hjob).queues hk)
  | leaves job hpermit _ _ hothers =>
    refine Or.inl ((hothers id ?_).queues hk)
    rintro rfl
    exact hk.not_hasPermit hpermit

/-- In its turn a job that waits for a permit gets it or stands in line. -/
theorem asks_of_turn (hf : f.Rooted) (hqueues : f.Queues id) :
    if (f.permits.acquire id).1 = true then (f.turn (.worker id)).fleet.HasPermit id
    else ∃ k, (f.turn (.worker id)).fleet.permits.Stands id k := by
  rw [turn]
  obtain ⟨e, he, hstage⟩ := hqueues
  have hid := hf.ids id e he
  have hpermits := permits_workerTurn he hid
  obtain ⟨e', he', hbrings⟩ := (workerTurn_works he hid).brings he
  rw [hstage] at hpermits
  rw [JobEntry.work, hstage] at hbrings
  dsimp only at hbrings
  split
  · next hgot =>
    rw [if_pos hgot] at hbrings
    obtain rfl := hbrings
    exact ⟨_, he', trivial⟩
  · next hgot =>
    rw [hpermits]
    exact Permits.stands_of_acquire (Bool.of_not_eq_true hgot)

/-- Who has been given a permit collects it. -/
theorem collects (h : FairRun s₀ σ) (hgranted : id ∈ (σ n).permits.granted) :
    ∃ m ≥ n, (σ m).HasPermit id := by
  obtain ⟨m, hm, hturn⟩ := h.fair.turns (.worker id) n
  have hkeeps := holds_or_happens (P := fun k => id ∈ (σ k).permits.granted)
    (Q := fun k => (σ k).HasPermit id) hgranted (fun k _ hk => ?_) hm
  · rcases hkeeps with hgranted' | hpermit
    · have hself :=
        asks_of_turn (h.progressing m).rooted ((h.progressing m).queueing.granted id hgranted')
      rw [if_pos (Permits.acquire_of_granted hgranted')] at hself
      refine ⟨m + 1, Nat.le_succ_of_le hm, ?_⟩
      rw [hturn]
      exact hself
    · exact hpermit
  · cases h.hands k with
    | nothing hpermits _ =>
      rw [hpermits]
      exact Or.inl hk
    | asks job _ hpermits hself _ =>
      by_cases hjob : id = job
      · subst hjob
        rw [if_pos (Permits.acquire_of_granted hk)] at hself
        exact Or.inr hself
      · rw [hpermits]
        exact Or.inl (Permits.granted_acquire hk hjob)
    | leaves job _ hpermits _ _ =>
      rw [hpermits]
      exact Or.inl (Permits.granted_release hk)

/-- While somebody stands in line, a job gets a permit in the end, or had one all along. -/
theorem somebody_has_permit (h : FairRun s₀ σ) {k : Nat} (hstands : (σ n).permits.Stands id k) :
    ∃ job, ∃ m ≥ n, (σ m).HasPermit job := by
  have hqueueing := (h.progressing n).queueing
  rcases hqueueing.taken (hqueueing.full hstands.line_ne_nil) with hgranted | ⟨job, hpermit⟩
  · obtain ⟨job, hjob⟩ := List.exists_mem_of_ne_nil _ hgranted
    exact ⟨job, h.collects hjob⟩
  · exact ⟨job, n, Nat.le_refl n, hpermit⟩

/-- Who stands in line keeps its place, until it is given a permit or moves up. -/
theorem keeps_place (h : FairRun s₀ σ) {k : Nat} (hstands : (σ n).permits.Stands id k) {m : Nat}
    (hm : n ≤ m) : (σ m).permits.Stands id k ∨
      ∃ j ≥ n, id ∈ (σ j).permits.granted ∨ ∃ i < k, (σ j).permits.Stands id i := by
  refine holds_or_happens (P := fun j => (σ j).permits.Stands id k) hstands (fun j _ hj => ?_) hm
  cases h.hands j with
  | nothing hpermits _ =>
    rw [hpermits]
    exact Or.inl hj
  | asks job _ hpermits _ _ =>
    rw [hpermits]
    exact Or.inl (hj.acquire job)
  | leaves job _ hpermits _ _ =>
    rw [hpermits]
    exact Or.inr hj.release

/-- The line moves on. -/
theorem moves_up (h : FairRun s₀ σ) {k : Nat} (hstands : (σ n).permits.Stands id k) :
    ∃ j ≥ n, id ∈ (σ j).permits.granted ∨ ∃ i < k, (σ j).permits.Stands id i := by
  by_contra hnever
  have hplace (m : Nat) (hm : n ≤ m) : (σ m).permits.Stands id k :=
    (h.keeps_place hstands hm).resolve_right hnever
  obtain ⟨job, m, hm, hpermit⟩ := h.somebody_has_permit hstands
  obtain ⟨last, hlast, e, he, hgone⟩ := h.leaves_of_hasPermit hpermit
  -- nobody gives a permit back, or the line would have moved
  have hholds := holds_or_happens (P := fun j => (σ j).HasPermit job) (Q := fun _ => False) hpermit
    (fun j hj hj' => ?_) hlast
  · rcases hholds with ⟨e', he', hpermitted⟩ | ⟨-, -, hfalse⟩
    · cases he.symm.trans he'
      rw [hgone] at hpermitted
      exact hpermitted
    · exact hfalse
  · have hnj := Nat.le_trans hm hj
    left
    cases h.hands j with
    | nothing _ hstays => exact (hstays job).hasPermit hj'
    | asks other hqueues _ _ hothers =>
      refine (hothers job ?_).hasPermit hj'
      rintro rfl
      exact hqueues.not_hasPermit hj'
    | leaves other _ hpermits _ _ =>
      refine (hnever ⟨j + 1, Nat.le_succ_of_le hnj, ?_⟩).elim
      rw [hpermits]
      exact (hplace j hnj).release

/-- Who stands in line has a permit in the end. -/
theorem hasPermit_of_stands (h : FairRun s₀ σ) {k : Nat} (hstands : (σ n).permits.Stands id k) :
    ∃ m ≥ n, (σ m).HasPermit id := by
  induction k using Nat.strong_induction_on generalizing n with
  | _ k ih =>
    obtain ⟨j, hj, hgranted | ⟨i, hi, hahead⟩⟩ := h.moves_up hstands
    · obtain ⟨m, hm, hpermit⟩ := h.collects hgranted
      exact ⟨m, Nat.le_trans hj hm, hpermit⟩
    · obtain ⟨m, hm, hpermit⟩ := ih i hi hahead
      exact ⟨m, Nat.le_trans hj hm, hpermit⟩

/-- Whoever stands in line has a permit in the end. -/
theorem hasPermit_of_queues (h : FairRun s₀ σ) (hqueues : (σ n).Queues id) :
    ∃ m ≥ n, (σ m).HasPermit id := by
  obtain ⟨m, hm, hturn⟩ := h.fair.turns (.worker id) n
  rcases h.keeps_waiting hqueues hm with hstill | hpermit
  · have hself := asks_of_turn (h.progressing m).rooted hstill
    rw [← hturn] at hself
    have hnm := Nat.le_succ_of_le hm
    split at hself
    · exact ⟨m + 1, hnm, hself⟩
    · obtain ⟨k, hstands⟩ := hself
      obtain ⟨j, hj, hpermit⟩ := h.hasPermit_of_stands hstands
      exact ⟨j, Nat.le_trans hnm hj, hpermit⟩
  · exact hpermit

/-- In a fair run every job leaves in the end. -/
theorem leaves (h : FairRun s₀ σ) {e : JobEntry} (he : (σ n).jobs.get? id = some e) :
    ∃ m ≥ n, (σ m).HasLeft id := by
  by_cases hgone : e.stage = .gone
  · exact ⟨n, Nat.le_refl n, e, he, hgone⟩
  by_cases hqueued : e.stage = .queued
  · obtain ⟨m, hm, hpermit⟩ := h.hasPermit_of_queues ⟨e, he, hqueued⟩
    obtain ⟨k, hk, hleft⟩ := h.leaves_of_hasPermit hpermit
    exact ⟨k, Nat.le_trans hm hk, hleft⟩
  · have hpermitted : e.stage.Permitted := by
      cases hstage : e.stage with
      | queued => exact (hqueued hstage).elim
      | gone => exact (hgone hstage).elim
      | _ => trivial
    exact h.leaves_of_hasPermit ⟨e, he, hpermitted⟩

end FairRun

end Fleet

end Flotilla
