import Flotilla.Proofs.Fleet.Guidance
import Flotilla.Proofs.Worker.Order
import Mathlib.Tactic.IntervalCases

/-!
# How a worker ends its job

A worker that is not stopped tries to record the end of its job as often as the policy of the last
step allows. When that end is a completion that the store does not take, it ends the job as failed
instead, but tries to record that only once. So it leaves without a recorded end exactly if all
tries of the first kind were refused and the one that may follow a completion was refused as well
(`Fleet.gives_up_iff`).
-/

namespace Flotilla

/-- Which tries to record the moves of a job the store refuses, and how: tries of the same move are
counted from one. -/
abbrev Refusals := JobEvent → Nat → Option Fault

namespace Refusals

variable {o : Refusals} {event : JobEvent} {policy : RetryPolicy} {n : Nat}

/-- What the worker hears of a try. -/
def answer (o : Refusals) (event : JobEvent) (n : Nat) : Except Fault Unit :=
  match o event n with
  | some fault => .error fault
  | none => .ok ()

private theorem eq_some_of_answer {fault : Fault} (h : o.answer event n = .error fault) :
    o event n = some fault := by
  unfold answer at h
  split at h
  · next heq => rw [heq, Except.error.inj h]
  · cases h

private theorem eq_none_of_answer (h : o.answer event n = .ok ()) : o event n = none := by
  unfold answer at h
  split at h
  · cases h
  · next heq => exact heq

/-- The first tries of a move are refused. -/
def RefusesFirst (o : Refusals) (event : JobEvent) (n : Nat) : Prop :=
  ∀ k, 1 ≤ k → k ≤ n → (o event k).isSome = true

/-- Among no tries none was taken. -/
theorem refusesFirst_zero (o : Refusals) (event : JobEvent) : o.RefusesFirst event 0 := by
  intro k hk hle
  omega

/-- A further try that is refused adds to those that were. -/
theorem RefusesFirst.succ (h : o.RefusesFirst event n) {fault : Fault}
    (hnext : o event (n + 1) = some fault) : o.RefusesFirst event (n + 1) := by
  intro k hk hle
  rcases Nat.lt_or_eq_of_le hle with hlt | rfl
  · exact h k hk (Nat.le_of_lt_succ hlt)
  · simp [hnext]

/-- No end that a worker tries to record is taken: neither the one that it comes to, as often as the
policy allows it, nor the failure that it tries once in place of a completion. -/
structure GivesUp (o : Refusals) (event : JobEvent) (policy : RetryPolicy) : Prop where
  refused : o.RefusesFirst event policy.budget
  fallback : event = .allStepsCompleted → (o .stepExhausted 1).isSome = true

end Refusals

/-- The store answers tries to record moves of a job as it was laid down. -/
def Fleet.HearsMoves (o : Refusals) (f : Fleet) (e : JobEntry) : Prop :=
  ∀ event policy tries state, e.stage = .moving event policy tries →
    e.job.state.next? event = some state →
    (f.persist { e.job with state }).1 = o.answer event (tries.toNat + 1)

/-- How far a worker is that ends its job with an event. -/
def Stage.Ends (o : Refusals) (event : JobEvent) (policy : RetryPolicy) (terminal : Bool) :
    Stage → Prop
  | .moving event' policy' tries =>
    (event' = event ∧ policy' = policy ∧ tries.toNat < policy.budget ∧
      o.RefusesFirst event tries.toNat) ∨
    (event = .allStepsCompleted ∧ event' = .stepExhausted ∧ policy' = .once ∧ tries = 0 ∧
      o.RefusesFirst event policy.budget)
  | .resting event' policy' tries _ =>
    event' = event ∧ policy' = policy ∧ tries.toNat < policy.budget ∧
      o.RefusesFirst event tries.toNat
  | .leaving _ | .gone => terminal = false ↔ o.GivesUp event policy
  | .queued | .choosing | .starting _ | .acting .. | .waiting .. | .succeeding _ | .pausing _
  | .backingOff .. => False

namespace JobEntry

variable {e e' : JobEntry} {config : Config} {event : JobEvent} {o : Refusals}
  {policy : RetryPolicy} {run : StepRun}

/-- A job whose worker is about to record a closing event runs. -/
theorem Standing.running (h : e.Standing) (hevent : event.IsClosing) {tries : UInt32}
    (hstage : e.stage = .moving event policy tries) : e.job.state = .running := by
  have hbefits := h.befits
  rw [hstage] at hbefits
  cases event <;> first | exact hbefits.1 | exact hevent.elim

/-- A closing event ends a job that runs. -/
theorem next?_of_isClosing (hevent : event.IsClosing) :
    ∃ state, JobState.running.next? event = some state ∧ state.isTerminal = true := by
  cases event <;> first | exact ⟨_, rfl, rfl⟩ | exact hevent.elim

/-- A worker whose closing move was recorded leaves. -/
theorem moved_of_isClosing (hevent : event.IsClosing) (e : JobEntry) (config : Config) :
    e.moved config event = e.goTo (.leaving (.ok ())) := by
  cases event <;> first | rfl | exact hevent.elim

/-- One try to record a move that the state of the job allows. -/
theorem tries_move {f : Fleet} {id : JobId} {tries : UInt32} {state : JobState}
    (hstage : e.stage = .moving event policy tries)
    (hnext : e.job.state.next? event = some state) (hhears : f.HearsMoves o e)
    (hbrings : (e.work f id).Brings f id e e') :
    (∃ fault, o event (tries.toNat + 1) = some fault ∧ fault.isRetryable = true ∧
      e' = ({ e with job := { f.stamped { e.job with state } with
        state := e.job.state } }).moveRefused f.now event policy (tries + 1) fault) ∨
    (o event (tries.toNat + 1) = none ∧
      e' = ({ e with
        snapshot := f.stamped { e.job with state }
        job := f.stamped { e.job with state } }).moved f.config event) := by
  have hanswer := hhears event policy tries state hstage hnext
  unfold work at hbrings
  rw [hstage] at hbrings
  dsimp only at hbrings
  rw [hnext] at hbrings
  rcases hbrings with ⟨fault, hpersist, rfl⟩ | ⟨hpersist, rfl⟩
  · have hrefused := Refusals.eq_some_of_answer (hanswer.symm.trans hpersist)
    exact Or.inl ⟨fault, hrefused, (Fleet.passes_of_persist hpersist).1, rfl⟩
  · have htaken := Refusals.eq_none_of_answer (hanswer.symm.trans hpersist)
    exact Or.inr ⟨htaken, rfl⟩

/-- One try to record the end of a job. -/
theorem ends_move {f : Fleet} {id : JobId} {tries : UInt32} (h : e.Standing)
    (hevent : event.IsClosing) (hstage : e.stage = .moving event policy tries)
    (hhears : f.HearsMoves o e) (hbrings : (e.work f id).Brings f id e e') :
    (∃ fault, o event (tries.toNat + 1) = some fault ∧ fault.isRetryable = true ∧
      e'.snapshot = e.snapshot ∧
      ∃ job, e'.stage = (moveRefused { e with job } f.now event policy (tries + 1) fault).stage) ∨
    (o event (tries.toNat + 1) = none ∧ e'.snapshot.isTerminal = true ∧
      e'.stage = .leaving (.ok ())) := by
  obtain ⟨state, hnext, hterminal⟩ := next?_of_isClosing hevent
  rw [← h.running hevent hstage] at hnext
  rcases tries_move hstage hnext hhears hbrings with ⟨fault, hrefused, hretry, rfl⟩ | ⟨htaken, rfl⟩
  · exact Or.inl ⟨fault, hrefused, hretry, (preserved_moveRefused ..).snapshot, _, rfl⟩
  · rw [moved_of_isClosing hevent]
    exact Or.inr ⟨htaken, hterminal, rfl⟩

/-- What a worker that ends its job preserves. -/
theorem ends_law (o : Refusals) (event : JobEvent) (hevent : event.IsClosing)
    (policy : RetryPolicy) :
    GuidedLaw (Fleet.HearsMoves o) fun _ _ e =>
      e.Standing ∧ e.stage.Ends o event policy e.snapshot.isTerminal := by
  refine (standing_law.guided _).refine ?_ ?_
  · rintro _ _ e e' - h (rfl | ⟨-, rfl⟩) <;> exact h
  · rintro f id e e' - hhears h hends hbrings
    cases hstage : e.stage with
    | queued | choosing | starting | acting | waiting | succeeding | pausing | backingOff =>
      rw [hstage] at hends
      exact hends.elim
    | moving event' policy' tries =>
      rw [hstage] at hends
      rcases hends with ⟨rfl, rfl, hlt, hfirst⟩ | ⟨rfl, rfl, rfl, rfl, hfirst⟩
      · have hopen : e.snapshot.isTerminal = false := by
          rw [Job.isTerminal, h.snapshot, h.running hevent hstage]
          rfl
        obtain ⟨hcount, hallows⟩ := RetryPolicy.allowsAnother_succ hlt
        rcases ends_move h hevent hstage hhears hbrings with
          ⟨fault, hrefused, hretryable, hsnapshot, job, hnext⟩ | ⟨htaken, hterminal, hnext⟩
        · have hfirst' := hfirst.succ hrefused
          rw [hnext, hsnapshot, hopen]
          rcases moveRefused_cases { e with job } f.now event' policy' (tries + 1) fault with
            ⟨-, hagain, hc⟩ | ⟨hover, hends⟩
          · rw [hc]
            refine ⟨rfl, rfl, ?_, ?_⟩
            · rw [hcount]
              exact hallows.1 hagain
            · rw [hcount]
              exact hfirst'
          · have hall : o.RefusesFirst event' policy'.budget := by
              have hend : policy'.budget = tries.toNat + 1 := by
                rw [hretryable, Bool.true_and, ← Bool.not_eq_true, hallows] at hover
                omega
              rw [hend]
              exact hfirst'
            rcases hends with ⟨hcompleted, hc⟩ | ⟨hnot, hc⟩
            · rw [hc]
              exact Or.inr ⟨hcompleted, rfl, rfl, rfl, hall⟩
            · rw [hc]
              exact iff_of_true rfl ⟨hall, fun hcompleted => (hnot hcompleted).elim⟩
        · rw [hnext, hterminal]
          refine iff_of_false nofun fun hgives => ?_
          have hrefused := hgives.refused (tries.toNat + 1) (Nat.le_add_left ..) hlt
          rw [htaken] at hrefused
          cases hrefused
      · have hfallback : JobEvent.IsClosing .stepExhausted := trivial
        have hopen : e.snapshot.isTerminal = false := by
          rw [Job.isTerminal, h.snapshot, h.running hfallback hstage]
          rfl
        rcases ends_move h hfallback hstage hhears hbrings with
          ⟨fault, hrefused, -, hsnapshot, job, hnext⟩ | ⟨htaken, hterminal, hnext⟩
        · rw [hnext, hsnapshot, hopen]
          rcases moveRefused_cases { e with job } f.now .stepExhausted .once (0 + 1) fault with
            ⟨-, honce, -⟩ | ⟨-, ⟨hcompleted, -⟩ | ⟨-, hc⟩⟩
          · cases honce
          · cases hcompleted
          · rw [hc]
            exact iff_of_true rfl ⟨hfirst, fun _ => Option.isSome_iff_exists.2 ⟨fault, hrefused⟩⟩
        · rw [hnext, hterminal]
          refine iff_of_false nofun fun hgives => ?_
          have hrefused := hgives.fallback rfl
          have htaken' : o .stepExhausted 1 = none := htaken
          rw [htaken'] at hrefused
          cases hrefused
    | resting event' policy' tries wakeAt =>
      rw [hstage] at hends
      rw [work, hstage] at hbrings
      dsimp only at hbrings
      split at hbrings
      · obtain rfl := hbrings
        exact Or.inl hends
      · obtain rfl := hbrings
        rw [hstage]
        exact hends
    | leaving result =>
      rw [hstage] at hends
      rw [work, hstage] at hbrings
      obtain rfl := hbrings
      exact hends
    | gone =>
      rw [hstage] at hends
      rw [work, hstage] at hbrings
      obtain rfl := hbrings
      rw [hstage]
      exact hends

/-- The job comes to its end: its worker is about to record a closing event for the first time,
under the policy of the step that closes the job. -/
structure Closes (config : Config) (event : JobEvent) (e : JobEntry) : Prop where
  closing : event.IsClosing
  stage : e.stage = .moving event (config.closingPolicy e.job) 0

/-- A stage before the end of a job, or that of a worker whose job never started. -/
def Stage.Open (state : JobState) : Stage → Prop
  | .queued | .choosing | .starting _ | .acting .. | .waiting .. | .succeeding _ | .pausing _
  | .backingOff .. => True
  | .moving event .. | .resting event .. => event = .start
  | .leaving _ | .gone => state = .created

/-- A job that has not come to its end, or that was asked to stop. -/
def Open (e : JobEntry) : Prop := e.stop = true ∨ Stage.Open e.snapshot.state e.stage

/-- A job that is open, or that comes to its end right now. -/
def OpenOrCloses (config : Config) (e : JobEntry) : Prop :=
  e.Open ∨ ∃ event, e.Closes config event

/-- A worker that comes to the end of its job turns to the closing move. -/
theorem closes_conclude (hphase : e.phase ≠ .stopRequested) (hevent : event.IsClosing)
    (failure : Option Fault) : (e.conclude config event failure).Closes config event := by
  rcases e.conclude_cases config event failure with ⟨hasked, -⟩ | ⟨-, hc⟩
  · exact (hphase hasked).elim
  · rw [hc]
    exact ⟨hevent, rfl⟩

private theorem open_attemptFailed (hphase : e.phase ≠ .stopRequested) (hstop : ¬e.stop = true)
    (run : StepRun) (fault : Fault) : (e.attemptFailed config run fault).OpenOrCloses config := by
  rcases e.attemptFailed_cases config run fault with
    ⟨hasked, -⟩ | ⟨-, -, hc⟩ | ⟨-, -, -, -, hc⟩
  · exact (hstop hasked).elim
  · rw [hc]
    refine Or.inr ⟨_, closes_conclude ?_ fault.isClosing_ending _⟩
    exact hphase
  · rw [hc]
    exact Or.inl (Or.inr trivial)

private theorem open_afterRun (hphase : e.phase ≠ .stopRequested) (hstop : ¬e.stop = true)
    (run : StepRun) (result : Suspension (Except Fault Unit) ⊕ Except Fault Unit) :
    (e.afterRun config run result).OpenOrCloses config := by
  rcases result with suspension | fault | ⟨⟩
  · exact Or.inl (Or.inr trivial)
  · exact open_attemptFailed hphase hstop run fault
  · exact Or.inl (Or.inr trivial)

private theorem open_choose (hphase : e.phase ≠ .stopRequested) (hstop : ¬e.stop = true)
    (registry : Registry) : (e.choose config registry).OpenOrCloses config := by
  have hcompleted : JobEvent.IsClosing .allStepsCompleted := trivial
  have hfatal : JobEvent.IsClosing .fatalError := trivial
  rcases e.choose_cases config registry with
    ⟨hasked, -⟩ | ⟨-, -, hc⟩ | ⟨-, s, fault, -, -, hc⟩ | ⟨-, s, d, -, -, hc⟩
  · exact (hstop hasked).elim
  · rw [hc]
    exact Or.inr ⟨_, closes_conclude hphase hcompleted _⟩
  · rw [hc]
    refine Or.inr ⟨_, closes_conclude ?_ hfatal _⟩
    exact hphase
  · rw [hc]
    exact Or.inl (Or.inr trivial)

/-- A job whose phase a stop has claimed was asked to stop. -/
def Unsplit (e : JobEntry) : Prop := e.phase = .stopRequested → e.stop = true

/-- No decision claims the phase of a job that was not asked to stop. -/
theorem Preserved.unsplit (ht : e.Preserved e') (h : e.Unsplit) : e'.Unsplit := by
  intro hphase
  rw [ht.stop]
  exact h (ht.asked hphase)

/-- Where a stop is one stroke, a job whose phase it has claimed was asked to stop. -/
theorem unsplit_law : Law (fun _ e => e.Unsplit) (fun _ _ => True) where
  asked _ e e' h ha := by
    rcases ha with rfl | ⟨-, rfl⟩
    · exact h
    · exact fun _ => rfl
  works f id e h := by
    have hpreserves := e.preserves_work f id
    revert hpreserves
    cases e.work f id with
    | change e' => exact fun ht => ht.unsplit h
    | record job cancels next =>
      rintro ⟨-, hrefused, htaken⟩
      exact ⟨trivial, fun fault => (hrefused fault).unsplit h, htaken.unsplit h⟩
    | perform run program =>
      rintro - result e' (rfl | ⟨-, rfl⟩)
      · exact (preserved_afterRun ..).unsplit h
      · exact (preserved_afterRun ..).unsplit fun _ => rfl

/-- What every worker preserves of a job that stands well. -/
theorem standing_unsplit_law (H : Fleet → JobEntry → Prop) :
    GuidedLaw H fun _ _ e => e.Standing ∧ e.Unsplit :=
  (standing_law.guided H).refine
    (fun config registry e e' _ => (unsplit_law.guided H).asked config registry e e')
    (fun f id e e' hid hH _ => (unsplit_law.guided H).works f id e e' hid hH)

/-- The first move of a job that stands well is one that its state allows. -/
private theorem created_of_moving {policy : RetryPolicy} {tries : UInt32} (h : e.Standing)
    (hstage : e.stage = .moving event policy tries) (hopen : Stage.Open e.snapshot.state e.stage) :
    event = .start ∧ e.job.state = .created := by
  have hbefits := h.befits
  rw [hstage] at hbefits hopen
  obtain rfl : event = .start := hopen
  exact ⟨rfl, hbefits.1⟩

private theorem open_of_change {f : Fleet} {id : JobId} (h : e.Standing)
    (hphase : e.phase ≠ .stopRequested) (hstop : ¬e.stop = true)
    (hopen : Stage.Open e.snapshot.state e.stage) (hwork : e.work f id = .change e') :
    e'.OpenOrCloses f.config := by
  cases changes_of_work hwork with
  | stays => exact Or.inl (Or.inr hopen)
  | admitted => exact Or.inl (Or.inr rfl)
  | misplaced hstage hnext =>
    obtain ⟨rfl, hcreated⟩ := created_of_moving h hstage hopen
    rw [hcreated] at hnext
    cases hnext
  | rested hstage =>
    rw [hstage] at hopen
    exact Or.inl (Or.inr hopen)
  | chose => exact open_choose hphase hstop f.registry
  | stopped hasked => exact (hstop hasked).elim
  | resumed => exact Or.inl (Or.inr trivial)
  | left hstage =>
    rw [hstage] at hopen
    exact Or.inl (Or.inr hopen)

private theorem open_of_record {f : Fleet} {id : JobId} {job : Job} {cancels : Bool}
    {next : Except Fault Unit → Job → JobEntry → JobEntry} (h : e.Standing)
    (hphase : e.phase ≠ .stopRequested) (hstop : ¬e.stop = true)
    (hopen : Stage.Open e.snapshot.state e.stage) (hwork : e.work f id = .record job cancels next)
    (hbrings : (Work.record job cancels next).Brings f id e e') : e'.OpenOrCloses f.config := by
  have hfailed {job : Job} (run : StepRun) (fault : Fault) :
      (({ e with job }).attemptFailed f.config run fault).OpenOrCloses f.config :=
    open_attemptFailed (e := { e with job }) hphase hstop run fault
  have hback (e₁ : JobEntry) (run : StepRun) : (e₁.backOff f.now run).OpenOrCloses f.config := by
    rcases e₁.backOff_cases f.now run with ⟨-, hc⟩ | ⟨-, hc⟩ <;> rw [hc] <;>
    exact Or.inl (Or.inr trivial)
  rcases record_cases hwork with ⟨event, policy, tries, state, hstage, -, rfl, -, rfl⟩ |
    ⟨run, -, rfl, -, rfl⟩ | ⟨run, -, rfl, -, rfl⟩ | ⟨run, -, rfl, -, rfl⟩
  · obtain ⟨rfl, hcreated⟩ := created_of_moving h hstage hopen
    have hsnapshot : e.snapshot.state = .created := h.snapshot.trans hcreated
    rcases hbrings with ⟨fault, -, rfl⟩ | ⟨-, rfl⟩
    · rcases moveRefused_cases _ f.now .start policy (tries + 1) fault with
        ⟨-, -, hc⟩ | ⟨-, ⟨hcompleted, -⟩ | ⟨-, hc⟩⟩
      · rw [afterMove, hc]
        exact Or.inl (Or.inr rfl)
      · cases hcompleted
      · rw [afterMove, hc]
        exact Or.inl (Or.inr hsnapshot)
    · exact Or.inl (Or.inr trivial)
  · rcases hbrings with ⟨fault, -, rfl⟩ | ⟨-, rfl⟩
    · exact hfailed run fault
    · exact Or.inl (Or.inr trivial)
  · rcases hbrings with ⟨fault, -, rfl⟩ | ⟨-, rfl⟩
    · exact hfailed run fault
    · exact Or.inl (Or.inr trivial)
  · rcases hbrings with ⟨fault, -, rfl⟩ | ⟨-, rfl⟩ <;> exact hback _ run

/-- A job that is open stays so until it comes to its end. -/
theorem open_of_brings {f : Fleet} {id : JobId} (h : e.Standing) (hunsplit : e.Unsplit)
    (hopen : e.Open) (hbrings : (e.work f id).Brings f id e e') : e'.OpenOrCloses f.config := by
  by_cases hstop : e.stop = true
  · exact Or.inl (Or.inl (stop_of_brings hbrings hstop))
  have hphase : e.phase ≠ .stopRequested := fun hphase => hstop (hunsplit hphase)
  have hstage := hopen.resolve_left hstop
  cases hwork : e.work f id with
  | change e₁ =>
    rw [hwork] at hbrings
    obtain rfl := hbrings
    exact open_of_change h hphase hstop hstage hwork
  | record job cancels next =>
    rw [hwork] at hbrings
    exact open_of_record h hphase hstop hstage hwork hbrings
  | perform run program =>
    rw [hwork] at hbrings
    obtain ⟨e₁, rfl | ⟨-, rfl⟩, rfl⟩ := hbrings
    · exact open_afterRun hphase hstop run _
    · exact Or.inl (Or.inl (preserved_afterRun ..).stop)

end JobEntry

namespace Fleet

variable {f g : Fleet} {id : JobId} {e : JobEntry} {s₀ : Store} {H : Fleet → JobEntry → Prop}
  {config : Config} {store : UnreliableStore} {registry : Registry} {target : String}
  {steps : List JobStep} {o : Refusals}

/-- Before the worker of a job that is not stopped leaves, there is a moment at which the job comes
to its end. -/
theorem closing_moment (hf : Published s₀ f) (hrun : GuidedRun H id f g)
    (he : f.jobs.get? id = some e) (hstanding : e.Standing) (hunsplit : e.Unsplit)
    (hopen : e.Open) :
    ∃ e', g.jobs.get? id = some e' ∧ (e'.Open ∨ ∃ k e₁ event, GuidedRun H id f k ∧
      GuidedRun H id k g ∧ k.jobs.get? id = some e₁ ∧ e₁.Closes f.config event) := by
  have hlaw := JobEntry.standing_unsplit_law H
  induction hrun with
  | refl => exact ⟨e, he, Or.inl hopen⟩
  | @tail k g hrun hlast ih =>
    obtain ⟨hk, hconfig, -, e₂, he₂, hstanding₂, hunsplit₂⟩ :=
      GuidedRun.keeps hrun hlaw hf he ⟨hstanding, hunsplit⟩
    obtain ⟨e₁, he₁, hbefore⟩ := ih
    cases he₂.symm.trans he₁
    obtain ⟨e', he', hentry⟩ := hlast.entry hk.fit he₁
    refine ⟨e', he', ?_⟩
    rcases hbefore with hopen' | ⟨m, e₃, event, hfm, hmk, he₃, hcloses⟩
    · rcases hentry with ⟨-, hbrings⟩ | ha
      · rcases JobEntry.open_of_brings hstanding₂ hunsplit₂ hopen' hbrings with
          hstill | ⟨event, hcloses⟩
        · exact Or.inl hstill
        · rw [hconfig] at hcloses
          exact Or.inr ⟨g, e', event, hrun.tail hlast, .refl, he', hcloses⟩
      · rcases ha with rfl | ⟨-, rfl⟩
        · exact Or.inl hopen'
        · exact Or.inl (Or.inl rfl)
    · exact Or.inr ⟨m, e₃, event, hfm, hmk.tail hlast, he₃, hcloses⟩

/-- A worker that started its job, was not asked to stop and has left came to the end of the job,
and left it without a recorded end exactly if the store refused every try to record the end that the
policy allows, and the only one to record a failure in place of a completion. -/
theorem gives_up_iff (hregistry : registry.Spares)
    (hrun : Run (fun key => ¬IsJobKey key) (opened config store registry) f)
    (hsubmit : (f.submit target steps).1 = .ok id)
    (hthen : GuidedRun (HearsMoves o) id (f.submit target steps).2 g)
    (he : g.jobs.get? id = some e) (hgone : e.stage = .gone)
    (hstarted : e.snapshot.state ≠ .created) (hstop : e.stop = false) :
    ∃ k e₁ event, GuidedRun (HearsMoves o) id (f.submit target steps).2 k ∧
      GuidedRun (HearsMoves o) id k g ∧ k.jobs.get? id = some e₁ ∧ e₁.Closes config event ∧
      (e.snapshot.isTerminal = false ↔ o.GivesUp event (config.closingPolicy e₁.job)) := by
  have hrun' := hrun.tail (.submit target steps)
  have hf := published_of_run hregistry hrun'
  have hconfig := (settings_of_run hregistry hrun').1
  have hstanding : (JobEntry.new (Job.new id target steps f.nowMs)).Standing :=
    JobEntry.standing_new rfl
  obtain ⟨e', he', hend⟩ := closing_moment hf hthen (get?_submit hsubmit) hstanding nofun
    (Or.inr trivial)
  cases he.symm.trans he'
  rcases hend with hopen | ⟨k, e₁, event, hfk, hkg, he₁, hcloses⟩
  · rcases hopen with hasked | hcreated
    · cases hstop.symm.trans hasked
    · rw [hgone] at hcreated
      exact (hstarted hcreated).elim
  · rw [hconfig] at hcloses
    obtain ⟨hk, -, -, e₂, he₂, hstanding₁⟩ :=
      hfk.keeps (JobEntry.standing_law.guided _) hf (get?_submit hsubmit) hstanding
    cases he₁.symm.trans he₂
    have hlaw := JobEntry.ends_law o event hcloses.closing (config.closingPolicy e₁.job)
    have hends : e₁.stage.Ends o event (config.closingPolicy e₁.job) e₁.snapshot.isTerminal := by
      rw [hcloses.stage]
      exact Or.inl ⟨rfl, rfl, RetryPolicy.budget_pos _, o.refusesFirst_zero event⟩
    obtain ⟨-, -, -, e₃, he₃, -, hleft⟩ := hkg.keeps hlaw hk he₁ ⟨hstanding₁, hends⟩
    cases he.symm.trans he₃
    rw [hgone] at hleft
    exact ⟨k, e₁, event, hfk, hkg, he₁, hcloses, hleft⟩

/-- A fleet in which every move may be tried twice, at its start; its store refuses the third, the
fourth and the fifth commit. -/
def openedForgone : Fleet :=
  let outage : Outage := ⟨.commit, none, some 3, none, some 3, .commitFailure "disk full"⟩
  opened { Config.standard with defaultRetry := ⟨2, .none⟩ } (.new [outage]) .empty

/-- That fleet after a job without steps has run its course. -/
def forgoneFleet : Fleet :=
  (openedForgone.submit "edge-1" []).2.turns (List.replicate 8 (.worker 1))

/-- What the store refuses: both tries to record the completion, and the first one to record a
failure in its place. -/
def forgoneRefusals : Refusals := fun event n =>
  if event = .allStepsCompleted ∨ (event = .stepExhausted ∧ n = 1) then
    some (.commitFailure "disk full")
  else none

private theorem guidedRun_forgoneFleet :
    GuidedRun (HearsMoves forgoneRefusals) 1 (openedForgone.submit "edge-1" []).2
      forgoneFleet := by
  refine guidedRun_turns 8 fun k hk => ?_
  interval_cases k <;> rintro e ⟨⟩ event policy tries state ⟨⟩ ⟨⟩ <;> rfl

/-- The worker has given up, and everything that it tries to record was refused. -/
theorem gives_up_iff_forgoneFleet :
    (∃ e, forgoneFleet.jobs.get? 1 = some e ∧ e.done = true ∧ e.snapshot.isTerminal = false) ∧
    ∃ event policy, event.IsClosing ∧ forgoneRefusals.GivesUp event policy := by
  have hentry : ∃ e, forgoneFleet.jobs.get? 1 = some e ∧ e.done = true ∧ e.stage = .gone ∧
      e.stop = false ∧ e.snapshot.state = .running := ⟨_, rfl, rfl, rfl, rfl, rfl⟩
  obtain ⟨e, he, hdone, hgone, hstop, hstate⟩ := hentry
  have hterminal : e.snapshot.isTerminal = false := by
    rw [Job.isTerminal, hstate]
    rfl
  obtain ⟨k, e₁, event, -, -, -, hcloses, hleft⟩ := gives_up_iff Registry.spares_empty .refl rfl
    guidedRun_forgoneFleet he hgone (by rw [hstate]; decide) hstop
  exact ⟨⟨e, he, hdone, hterminal⟩, event, _, hcloses.closing, hleft.1 hterminal⟩

/-- The job could still have ended as failed: the policy allows a second try, and the store would
have taken it. -/
theorem forgoneFleet_leaves :
    GuidedRun (HearsMoves forgoneRefusals) 1 (openedForgone.submit "edge-1" []).2 forgoneFleet ∧
    (∃ e, forgoneFleet.jobs.get? 1 = some e ∧ e.done = true ∧ e.stop = false ∧
      e.snapshot.state = .running ∧ (forgoneFleet.config.closingPolicy e.job).budget = 2 ∧
      (forgoneFleet.persist { e.job with state := .stepFailed }).1 = .ok ()) ∧
    ¬forgoneRefusals.RefusesFirst .stepExhausted 2 := by
  refine ⟨guidedRun_forgoneFleet, ⟨_, rfl, rfl, rfl, rfl, rfl, rfl⟩, fun hrefuses => ?_⟩
  have hsecond := hrefuses 2 (by decide) (by decide)
  cases hsecond

end Fleet

end Flotilla
