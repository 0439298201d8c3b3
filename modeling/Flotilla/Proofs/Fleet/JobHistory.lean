import Flotilla.Proofs.Fleet.StepEffects
import Mathlib.Data.List.Chain

/-!
# The history of a job

The records of a job tell one of a few sequences of states: it was created, it ran, and it
completed, failed or was stopped (`LawfulHistory`). Its worker never tries a move that the state
does not allow, although it applies every move before the store has taken it and takes it back when
the store refuses; and no record goes back to an earlier step or leaves one out
(`Fleet.history_is_lawful`).
-/

namespace Flotilla

namespace JobState

/-- Whether a record in one state can be followed by one in the other. -/
def precedes : JobState → JobState → Bool
  | .created, .running | .running, .running | .running, .completed | .running, .stepFailed
  | .running, .stopping | .stopping, .stopped => true
  | _, _ => false

/-- A move that is allowed leads to a state that may come next. -/
theorem precedes_of_next? {s s' : JobState} {event : JobEvent} (h : s.next? event = some s')
    (hne : s ≠ .stopping ∨ event ≠ .stopRequested) : s.precedes s' = true := by
  cases s <;> cases event <;> cases h <;> simp_all [precedes]

/-- Nothing comes after an end. -/
theorem isTerminal_of_precedes {s s' : JobState} (h : s.precedes s' = true) :
    s.isTerminal = false := by
  cases s <;> cases s' <;> first | rfl | cases h

/-- What can come after the last record in which a job runs. -/
def endings : List (List JobState) :=
  [[], [.completed], [.stepFailed], [.stopping], [.stopping, .stopped]]

/-- The states of a job that was created, was recorded `n + 1` times as it ran, and ended so. -/
def stateSequence (n : Nat) (ending : List JobState) : List JobState :=
  .created :: List.replicate (n + 1) .running ++ ending

private theorem stateSequence_succ (n : Nat) (ending : List JobState) :
    stateSequence (n + 1) ending = .created :: .running :: (stateSequence n ending).tail := by
  rw [stateSequence, List.replicate_succ]
  rfl

private theorem ending_of_isChain {state : JobState} {states : List JobState}
    (hstate : state = .stopping ∨ state.isTerminal = true)
    (h : (state :: states).IsChain fun s s' => s.precedes s' = true) :
    states = [] ∨ (state = .stopping ∧ states = [.stopped]) := by
  cases states with
  | nil => exact Or.inl rfl
  | cons next rest =>
    obtain ⟨hnext, hrest⟩ := List.isChain_cons_cons.1 h
    rcases hstate with rfl | hterminal
    · obtain rfl : next = .stopped := by cases next <;> first | rfl | cases hnext
      cases rest with
      | nil => exact Or.inr ⟨rfl, rfl⟩
      | cons after rest =>
        have hafter := (List.isChain_cons_cons.1 hrest).1
        cases after <;> cases hafter
    · cases (isTerminal_of_precedes hnext).symm.trans hterminal

/-- From the first record in which a job runs on, the states of its records are such a sequence. -/
theorem stateSequence_of_isChain {states : List JobState}
    (h : (.running :: states).IsChain fun s s' => s.precedes s' = true) :
    ∃ n, ∃ ending ∈ endings, .created :: .running :: states = stateSequence n ending := by
  induction states with
  | nil => exact ⟨0, [], by decide, rfl⟩
  | cons next rest ih =>
    obtain ⟨hnext, hrest⟩ := List.isChain_cons_cons.1 h
    cases next with
    | running =>
      obtain ⟨n, ending, hending, hsequence⟩ := ih hrest
      refine ⟨n + 1, ending, hending, ?_⟩
      rw [stateSequence_succ, ← hsequence]
      rfl
    | completed | stepFailed =>
      rcases ending_of_isChain (Or.inr rfl) hrest with rfl | ⟨hstopping, -⟩
      · exact ⟨0, _, by decide, rfl⟩
      · cases hstopping
    | stopping =>
      rcases ending_of_isChain (Or.inl rfl) hrest with rfl | ⟨-, rfl⟩ <;>
      exact ⟨0, _, by decide, rfl⟩
    | created | stopped => cases hnext

private theorem count_stateSequence_le {n : Nat} {ending : List JobState} (h : ending ∈ endings) :
    (stateSequence n ending).count .created ≤ 1 ∧ (stateSequence n ending).count .stopping ≤ 1 := by
  simp only [endings, List.mem_cons, List.not_mem_nil, or_false] at h
  rcases h with rfl | rfl | rfl | rfl | rfl <;> simp [stateSequence, List.count_replicate]

end JobState

/-- What the records of a job tell one after the other, each by the state and the step whose turn
it is. -/
structure LawfulHistory (history : List (JobState × Nat)) : Prop where
  stateSequence : ∃ n, ∃ ending ∈ JobState.endings,
    history.map Prod.fst <+: JobState.stateSequence n ending
  created : (history.map Prod.fst).count .created ≤ 1
  stopping : (history.map Prod.fst).count .stopping ≤ 1
  /-- No record goes back to an earlier step or leaves one out. -/
  steps : history.IsChain fun r r' => r'.2 = r.2 ∨ r'.2 = r.2 + 1
  /-- The record of an end is the last one. -/
  final : ∀ before r after, history = before ++ r :: after → r.1.isTerminal = true → after = []

/-- One record after another. -/
structure Precedes (r r' : JobState × Nat) : Prop where
  state : r.1.precedes r'.1 = true
  step : r'.2 = r.2 ∨ r'.2 = r.2 + 1

/-- Records that come after one another, from that of a new job on, make a lawful history. -/
theorem lawfulHistory_of_isChain {history : List (JobState × Nat)}
    (hchain : history.IsChain Precedes)
    (hfirst : ∀ r, history.head? = some r → r.1 = .created) : LawfulHistory history := by
  have hstates : (history.map Prod.fst).IsChain fun s s' => s.precedes s' = true :=
    (List.isChain_map _).2 (hchain.imp fun _ _ h => h.state)
  have hsequence : ∃ n, ∃ ending ∈ JobState.endings,
      history.map Prod.fst <+: JobState.stateSequence n ending := by
    cases history with
    | nil => exact ⟨0, [], by decide, List.nil_prefix⟩
    | cons r rest =>
      have hr : r.1 = .created := hfirst r rfl
      cases rest with
      | nil =>
        refine ⟨0, [], by decide, ?_⟩
        simp [hr, JobState.stateSequence]
      | cons r' rest =>
        rw [List.map_cons, List.map_cons, hr] at hstates ⊢
        obtain ⟨hnext, hrest⟩ := List.isChain_cons_cons.1 hstates
        obtain hr' : r'.1 = .running := by
          revert hnext
          cases r'.1 <;> first | exact fun _ => rfl | exact nofun
        rw [hr'] at hrest ⊢
        obtain ⟨n, ending, hending, heq⟩ := JobState.stateSequence_of_isChain hrest
        exact ⟨n, ending, hending, heq ▸ List.prefix_rfl⟩
  obtain ⟨n, ending, hending, hstart⟩ := hsequence
  obtain ⟨hcreated, hstopping⟩ := JobState.count_stateSequence_le (n := n) hending
  refine ⟨⟨n, ending, hending, hstart⟩, Nat.le_trans (hstart.sublist.count_le _) hcreated,
    Nat.le_trans (hstart.sublist.count_le _) hstopping, hchain.imp fun _ _ h => h.step, ?_⟩
  intro before r after hsplit hterminal
  cases after with
  | nil => rfl
  | cons next rest =>
    rw [hsplit] at hchain
    have hnext := (List.isChain_append_cons_cons.1 hchain).2.1.state
    cases (JobState.isTerminal_of_precedes hnext).symm.trans hterminal

namespace JobEntry

variable {e e' : JobEntry}

/-- The worker of a job is at the step that the last record tells. -/
def Level (e : JobEntry) : Prop := e.snapshot.currentStep = e.job.currentStep

/-- A turn leaves a worker at the step that the last record tells. -/
theorem Level.brings {f : Fleet} {id : JobId} (h : e.Level)
    (hbrings : (e.work f id).Brings f id e e') : e'.Level := by
  cases leaves_of_brings hbrings with
  | unrecorded e₁ ha hpreserved =>
    have hsame := ha.same
    rw [Level, hpreserved.snapshot, hpreserved.steps.currentStep, hsame.snapshot, hsame.job]
    exact h
  | recorded hwork hid hanswer hnext hpreserved =>
    rw [Level, hpreserved.snapshot, hpreserved.steps.currentStep]

/-- Every worker is at the step that the last record tells. -/
theorem rule_level : Rule fun _ _ e => e.Standing ∧ e.Level := by
  refine fineLaw_standing.rule.refine (fun _ _ e e' h hsame => ?_) fun _ _ _ _ _ _ h => h.brings
  rw [Level, hsame.snapshot, hsame.job]
  exact h

/-- What a worker records comes after what it recorded last. -/
theorem Standing.precedes_record (h : e.Standing) {f : Fleet} {id : JobId} {job : Job}
    {cancels : Bool} {next : Except Fault Unit → Job → JobEntry → JobEntry}
    (hwork : e.work f id = .record job cancels next) :
    Precedes (e.job.state, e.job.currentStep) (job.state, job.currentStep) := by
  have hbefits := h.befits
  rcases record_cases hwork with ⟨event, policy, tries, state, hstage, hnext, rfl, -⟩ |
    ⟨run, hstage, rfl, -⟩ | ⟨run, hstage, rfl, -⟩ | ⟨run, hstage, rfl, -⟩ <;>
    rw [hstage] at hbefits
  · refine ⟨JobState.precedes_of_next? hnext ?_, Or.inl rfl⟩
    -- A stop is recorded of a job that runs, never of one that is stopping already.
    cases event with
    | stopRequested =>
      left
      rw [hbefits.1]
      exact nofun
    | start | allStepsCompleted | stepExhausted | fatalError | stopSettled => exact Or.inr nofun
  all_goals
    have hrunning : e.job.state = .running := hbefits.1
    refine ⟨?_, ?_⟩
    · change e.job.state.precedes e.job.state = true
      rw [hrunning]
      rfl
    · first | exact Or.inl rfl | exact Or.inr rfl

end JobEntry

namespace Fleet

variable {f g : Fleet} {id : JobId}

/-- The history of a job comes from its creation down to its snapshot; a job that was never created
has none. -/
structure RecordedHistory (f : Fleet) (id : JobId) : Prop where
  absent : f.jobs.get? id = none → f.historyOf id = []
  chain : (f.historyOf id).IsChain Precedes
  first : ∀ r, (f.historyOf id).head? = some r → r.1 = .created
  last : ∀ e, f.jobs.get? id = some e →
    (f.historyOf id).getLast? = some (e.snapshot.state, e.snapshot.currentStep)

private theorem recordedHistory_of_same (h : f.RecordedHistory id)
    (hhistory : g.historyOf id = f.historyOf id)
    (habsent : g.jobs.get? id = none → f.jobs.get? id = none)
    (hentry : ∀ e', g.jobs.get? id = some e' →
      ∃ e, f.jobs.get? id = some e ∧ e'.snapshot = e.snapshot) : g.RecordedHistory id where
  absent hnone := hhistory.trans (h.absent (habsent hnone))
  chain := hhistory ▸ h.chain
  first := hhistory ▸ h.first
  last e' he' := by
    obtain ⟨e, he, hsnapshot⟩ := hentry e' he'
    rw [hhistory, hsnapshot]
    exact h.last e he

/-- What happens to a job goes into its history. -/
theorem RecordedHistory.effects (h : f.RecordedHistory id) (heffect : JobEffect id f g)
    (hentry : ∀ e, f.jobs.get? id = some e → e.Standing ∧ e.Level)
    (hnew : f.nextId = id → g.submitted = f.submitted + 1 → f.jobs.get? id = none) :
    g.RecordedHistory id := by
  cases heffect with
  | beside hrel hhistory =>
    refine recordedHistory_of_same h hhistory (fun hnone => ?_) fun e' he' => ?_
    · rw [hnone] at hrel
      generalize f.jobs.get? id = entry at hrel
      cases hrel
      rfl
    · rw [he'] at hrel
      obtain ⟨e, he, hm⟩ := mark_of_rel hrel
      exact ⟨e, he, hm.same.snapshot⟩
  | @turn e e' he he' _ hbrings hshows =>
    cases hshows with
    | unrecorded hsnapshot hhistory =>
      refine recordedHistory_of_same h hhistory (fun hnone => ?_) fun e₁ he₁ => ?_
      · cases hnone.symm.trans he'
      · cases he'.symm.trans he₁
        exact ⟨e, he, hsnapshot⟩
    | @recorded job cancels next hwork hsnapshot hhistory =>
      obtain ⟨hstanding, hlevel⟩ := hentry e he
      have hprecedes := hstanding.precedes_record hwork
      rw [← hstanding.snapshot, ← hlevel] at hprecedes
      refine ⟨fun hnone => ?_, ?_, fun r hr => ?_, fun e₁ he₁ => ?_⟩
      · cases hnone.symm.trans he'
      · rw [hhistory]
        refine List.isChain_append.2 ⟨h.chain, List.isChain_singleton _, ?_⟩
        intro r hr r' hr'
        cases (h.last e he).symm.trans hr
        cases hr'
        exact hprecedes
      · have hsome : (f.historyOf id).head?.isSome := by
          cases hempty : f.historyOf id with
          | nil =>
            have hlast := h.last e he
            rw [hempty] at hlast
            cases hlast
          | cons r rest => rfl
        obtain ⟨r₀, hr₀⟩ := Option.isSome_iff_exists.1 hsome
        rw [hhistory, List.head?_append, hr₀, Option.some_or] at hr
        exact Option.some.inj hr ▸ h.first r₀ hr₀
      · cases he'.symm.trans he₁
        rw [hhistory, List.getLast?_concat, hsnapshot]
        rfl
  | submitted target steps hid hsubmitted he' hhistory =>
    rw [h.absent (hnew hid hsubmitted), List.nil_append] at hhistory
    refine ⟨fun hnone => ?_, ?_, fun r hr => ?_, fun e₁ he₁ => ?_⟩
    · cases hnone.symm.trans he'
    · rw [hhistory]
      exact List.isChain_singleton _
    · rw [hhistory] at hr
      cases hr
      rfl
    · cases he'.symm.trans he₁
      rw [hhistory]
      rfl

/-- At the start no job has a history. -/
theorem recordedHistory_opened (config : Config) (store : UnreliableStore) (registry : Registry)
    (id : JobId) : (opened config store registry).RecordedHistory id := by
  have hnone := get?_opened config store registry id
  have hhistory : (opened config store registry).historyOf id = [] := by
    obtain ⟨agenda, broker, correlating, held, hopened⟩ := opened_eq config store registry
    rw [hopened]
    rfl
  refine ⟨fun _ => hhistory, ?_, fun r hr => ?_, fun e he => ?_⟩
  · rw [hhistory]
    exact .nil
  · rw [hhistory] at hr
    cases hr
  · cases hnone.symm.trans he

/-- At the start there is nothing to announce. -/
theorem announced_opened (config : Config) (store : UnreliableStore) (registry : Registry) :
    (opened config store registry).Announced := by
  obtain ⟨agenda, broker, correlating, held, hopened⟩ := opened_eq config store registry
  rw [hopened]
  rfl

/-- In every run every worker is at the step that the last record tells. -/
theorem level_of_run {config : Config} {store : UnreliableStore} {registry : Registry}
    (h : LooseRun (opened config store registry) f) {e : JobEntry}
    (he : f.jobs.get? id = some e) : e.Standing ∧ e.Level :=
  h.obeys JobEntry.rule_level (fun _ _ _ _ => ⟨JobEntry.standing_new rfl, rfl⟩) he

/-- In every run the history of a job is what its records tell. -/
theorem recordedHistory_of_run {config : Config} {store : UnreliableStore} {registry : Registry}
    (h : LooseRun (opened config store registry) f) (hlt : f.submitted < 2 ^ 64) (id : JobId) :
    f.RecordedHistory id := by
  have hroot := rooted_opened config store registry
  induction h with
  | refl => exact recordedHistory_opened config store registry id
  | @tail g f hrun hlast ih =>
    have hsteady := LooseRun.steady hrun hroot
    have hleads := hlast.leads hsteady.rooted
    refine (ih (Nat.lt_of_le_of_lt hleads.submitted hlt)).effects (hleads.effects id)
      (fun e he => level_of_run hrun he) fun hid hsubmitted => ?_
    cases he : g.jobs.get? id with
    | none => rfl
    | some e => exact (nextId_ne (hsteady.rooted.given id e he) (hsubmitted ▸ hlt) hid).elim

/-- The records of every job make a lawful history, whatever the store refuses and whoever is asked
to stop, and whatever the programs of the steps and outsiders write. No worker is ever told that its
job cannot take an event. If nobody but the fleet writes job records, they are all that the store
has taken under the key of the job. -/
theorem history_is_lawful {config : Config} {store : UnreliableStore} {registry : Registry}
    (hrun : LooseRun (opened config store registry) f) :
    (f.submitted < 2 ^ 64 → ∀ id, LawfulHistory (f.historyOf id)) ∧
    (∀ id e event policy tries, f.jobs.get? id = some e → e.stage = .moving event policy tries →
      ∃ state, (Lifecycle.mk e.job.state).apply event = (.moved state, ⟨state⟩)) ∧
    (registry.Spares → FineRun (opened config store registry) f →
      ∀ id, List.Forall₂ (Tells id) (f.commitsOf id) (f.historyOf id)) := by
  refine ⟨fun hlt id => ?_, fun id e event policy tries he hstage => ?_,
    fun hregistry hfine id => ?_⟩
  · have hrecorded := recordedHistory_of_run hrun hlt id
    exact lawfulHistory_of_isChain hrecorded.chain hrecorded.first
  · have hbefits := (level_of_run hrun he).1.befits
    rw [hstage] at hbefits
    obtain ⟨state, hnext⟩ := hbefits.next?
    refine ⟨state, ?_⟩
    rw [Lifecycle.apply, hnext]
  · have hattended := hfine.upholds JobEntry.fineLaw_standing
      (attended_opened config store hregistry) id
    have hannounced := (hrun.steady (rooted_opened config store registry)).announced
      (announced_opened config store registry)
    rw [← hannounced.noticesOf]
    exact (hattended.1.published.told id).notices

/-- A fleet whose job could not record the start of its first attempt, and pauses. -/
def pausingFleet : Fleet :=
  let outage : Outage := ⟨.commit, none, none, some "job/", some 1, .commitFailure "disk full"⟩
  { startingFleet with transactions := { startingFleet.transactions with
      store := { startingFleet.transactions.store with outages := [outage] } } }.turns
    (List.replicate 2 (.worker 1))

/-- That fleet after the job was asked to stop and its worker has left. -/
def wornFleet : Fleet := (pausingFleet.stop 1).2.turns (List.replicate 6 (.worker 1))

/-- A record is refused, the job is asked to stop, and its worker leaves. -/
theorem fineRun_wornFleet :
    FineRun (opened .standard (.new []) ⟨Table.ofList [("count", counting)]⟩) wornFleet := by
  have hpausing : FineRun startingFleet pausingFleet :=
    .head (.step (.disturb _)) (fineRun_turns _ _)
  have hworn : FineRun pausingFleet wornFleet := .head (.step (.stop 1)) (fineRun_turns _ _)
  exact (fineRun_startingFleet.trans hpausing).trans hworn

/-- The attempt that was refused shows nowhere. The pause after it is on record, and so is the
stop. -/
theorem history_is_lawful_wornFleet :
    wornFleet.historyOf 1 =
      [(.created, 0), (.running, 0), (.running, 0), (.stopping, 0), (.stopped, 0)] ∧
    LawfulHistory (wornFleet.historyOf 1) ∧
    List.Forall₂ (Tells 1) (wornFleet.commitsOf 1) (wornFleet.historyOf 1) := by
  have hregistry : Registry.Spares ⟨Table.ofList [("count", counting)]⟩ :=
    Registry.spares_empty.register spares_counting rfl
  obtain ⟨hlawful, -, htold⟩ := history_is_lawful fineRun_wornFleet.loose
  exact ⟨by decide +kernel, hlawful (by decide +kernel) 1,
    htold hregistry fineRun_wornFleet 1⟩

end Fleet

end Flotilla
