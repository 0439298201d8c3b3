import Flotilla.Proofs.Fleet.Standing

/-!
# Workers whose luck is known

What a worker does next depends on what it hears: whether the store takes a record, and what a
program comes to (`Work.Brings`). A run is guided when the worker of a job hears what was laid down
for it beforehand, whatever happens in between beside it (`Fleet.Guided`). What such a worker
preserves in a turn holds all along a guided run (`Fleet.GuidedRun.keeps`).
-/

namespace Flotilla

/-- What a turn that does this work makes of the entry of the job, by what the worker hears. -/
def Work.Brings (f : Fleet) (id : JobId) (e : JobEntry) : Work → JobEntry → Prop
  | .change e₁, e' => e' = e₁
  | .record job _ next, e' =>
    (∃ fault, (f.persist job).1 = .error fault ∧ e' = next (.error fault) (f.stamped job) e) ∨
      ((f.persist job).1 = .ok () ∧
        e' = next (.ok ()) (f.stamped job) { e with snapshot := f.stamped job })
  | .perform run program, e' => ∃ e₁, e.MayBeAsked e₁ ∧
      e' = e₁.afterRun f.config run (f.run id e.job.target program).1

/-- Who was asked to stop stays asked to stop. -/
theorem JobEntry.stop_of_brings {f : Fleet} {id : JobId} {e e' : JobEntry}
    (hbrings : (e.work f id).Brings f id e e') (hstop : e.stop = true) : e'.stop = true := by
  have hpreserves := e.preserves_work f id
  revert hpreserves hbrings
  cases e.work f id with
  | change e₁ =>
    rintro rfl ht
    exact ht.stop.trans hstop
  | record job cancels next =>
    rintro (⟨fault, -, rfl⟩ | ⟨-, rfl⟩) ht
    · exact (ht.2.1 fault).stop.trans hstop
    · exact ht.2.2.stop.trans hstop
  | perform run program =>
    rintro ⟨e₁, ha, rfl⟩ -
    refine (JobEntry.preserved_afterRun ..).stop.trans ?_
    rcases ha with rfl | ⟨-, rfl⟩
    · exact hstop
    · rfl

/-- A refusal of the store is worth another attempt and ends no job at once. -/
theorem Fault.passes_ofCommit (fault : Fault) :
    fault.ofCommit.isRetryable = true ∧ fault.ofCommit.isFatal = false := by
  cases fault <;> exact ⟨rfl, rfl⟩

/-- A law about what becomes of an entry when its worker hears what `H` allows. -/
structure JobEntry.GuidedLaw (H : Fleet → JobEntry → Prop)
    (P : Config → Registry → JobEntry → Prop) : Prop where
  asked : ∀ config registry e e', P config registry e → e.MayBeAsked e' → P config registry e'
  works : ∀ (f : Fleet) id e e', e.job.id = id → H f e → P f.config f.registry e →
    (e.work f id).Brings f id e e' → P f.config f.registry e'

/-- What holds whatever a worker hears holds in particular when it hears what is allowed. -/
theorem JobEntry.Law.guided {P : Config → JobEntry → Prop} {R : Config → Job → Prop}
    (h : JobEntry.Law P R) (H : Fleet → JobEntry → Prop) :
    JobEntry.GuidedLaw H fun config _ e => P config e where
  asked config _ e e' he ha := h.asked config e e' he ha
  works f id e e' _ _ he hbrings := by
    have hkeeps := h.works f id e he
    revert hkeeps hbrings
    cases e.work f id with
    | change e₁ =>
      rintro rfl hkeeps
      exact hkeeps
    | record job cancels next =>
      rintro (⟨fault, -, rfl⟩ | ⟨-, rfl⟩) hkeeps
      · exact hkeeps.2.1 fault
      · exact hkeeps.2.2
    | perform run program =>
      rintro ⟨e₁, ha, rfl⟩ hkeeps
      exact hkeeps _ e₁ ha

/-- A law on top of another one. -/
theorem JobEntry.GuidedLaw.refine {H : Fleet → JobEntry → Prop}
    {P P' : Config → Registry → JobEntry → Prop} (h : JobEntry.GuidedLaw H P)
    (hasked : ∀ config registry e e', P config registry e → P' config registry e →
      e.MayBeAsked e' → P' config registry e')
    (hworks : ∀ (f : Fleet) id e e', e.job.id = id → H f e → P f.config f.registry e →
      P' f.config f.registry e → (e.work f id).Brings f id e e' → P' f.config f.registry e') :
    JobEntry.GuidedLaw H fun config registry e =>
      P config registry e ∧ P' config registry e where
  asked config registry e e' he ha :=
    ⟨h.asked config registry e e' he.1 ha, hasked config registry e e' he.1 he.2 ha⟩
  works f id e e' hid hH he hbrings :=
    ⟨h.works f id e e' hid hH he.1 hbrings, hworks f id e e' hid hH he.1 he.2 hbrings⟩

namespace Fleet

variable {f g : Fleet} {id : JobId} {e e' : JobEntry} {s₀ : Store}
  {H : Fleet → JobEntry → Prop} {P : Config → Registry → JobEntry → Prop}

/-- A record that the store does not take can be tried again. -/
theorem passes_of_persist {job : Job} {fault : Fault} (h : (f.persist job).1 = .error fault) :
    fault.isRetryable = true ∧ fault.isFatal = false := by
  revert h
  unfold persist
  dsimp only [Transactions.begin, Transactions.conclude, Transactions.commit]
  generalize UnreliableStore.commit _ _ _ = r
  obtain ⟨result, store⟩ := r
  cases result with
  | error fault' =>
    rintro ⟨⟩
    exact fault'.passes_ofCommit
  | ok => rintro ⟨⟩

/-- A turn of a worker brings about what its work brings about. -/
theorem Works.brings {work : Work} (h : f.Works id e work g) (he : f.jobs.get? id = some e) :
    ∃ e', g.jobs.get? id = some e' ∧ work.Brings f id e e' := by
  cases h with
  | change e' agenda permits => exact ⟨e', Table.get?_set_self .., rfl⟩
  | refused fault m agenda _ hpersist =>
    exact ⟨_, Table.get?_set_self .., Or.inl ⟨fault, congrArg Prod.fst hpersist, rfl⟩⟩
  | taken tx m agenda _ hpersist =>
    exact ⟨_, Table.get?_set_self .., Or.inr ⟨congrArg Prod.fst hpersist, rfl⟩⟩
  | @performed run program result g e' before agenda hrun hentry =>
    have hran := ran_run id e.job.target program { f with agenda := before }
    obtain ⟨after, hsame⟩ := run_agenda id e.job.target program f before
    rw [hrun] at hran hsame
    obtain ⟨e₁, he₁, hasked⟩ := hran.entry e he
    cases hentry.symm.trans he₁
    have hresult : result = (f.run id e.job.target program).1 := congrArg Prod.fst hsame
    refine ⟨_, Table.get?_set_self .., e', hasked, ?_⟩
    rw [hran.config, hresult]

/-- A step of a run in which the worker of a job hears what `H` allows. Whatever happens beside its
turns leaves its job alone, but for a stop that may be asked for. -/
inductive Guided (H : Fleet → JobEntry → Prop) (id : JobId) (f : Fleet) : Fleet → Prop
  | turn (h : ∀ e, f.jobs.get? id = some e → H f e) : Guided H id f (f.workerTurn id).fleet
  | beside {g : Fleet} (h : Step (fun key => ¬IsJobKey key) f g)
    (hentry : Option.Rel JobEntry.MayBeAsked (f.jobs.get? id) (g.jobs.get? id)) : Guided H id f g

/-- A row of such steps. -/
abbrev GuidedRun (H : Fleet → JobEntry → Prop) (id : JobId) : Fleet → Fleet → Prop :=
  Relation.ReflTransGen (Guided H id)

/-- A step that leaves the job alone is guided. -/
theorem Guided.of_get?_eq (h : Step (fun key => ¬IsJobKey key) f g)
    (hjobs : g.jobs.get? id = f.jobs.get? id) : Guided H id f g := by
  refine .beside h ?_
  rw [hjobs]
  cases f.jobs.get? id with
  | none => exact .none
  | some e => exact .some (Or.inl rfl)

/-- A guided step is a step. -/
theorem Guided.step (h : Guided H id f g) : Step (fun key => ¬IsJobKey key) f g := by
  cases h with
  | turn => exact .turn (.worker id)
  | beside h => exact h

/-- What is published along a guided run is what the store took. -/
theorem GuidedRun.published (h : GuidedRun H id f g) (hf : Published s₀ f) : Published s₀ g := by
  induction h with
  | refl => exact hf
  | tail _ hlast ih => exact ih.step hlast.step

/-- Where an entry may have been asked to stop, there is one. -/
theorem mayBeAsked_of_rel {entry : Option JobEntry}
    (h : Option.Rel JobEntry.MayBeAsked (some e) entry) :
    ∃ e', entry = some e' ∧ e.MayBeAsked e' := by
  cases h with
  | some ha => exact ⟨_, rfl, ha⟩

/-- What becomes of the entry of a job in a guided step: its worker does its work, or at most a stop
is asked for. -/
theorem Guided.entry (h : Guided H id f g) (hf : f.Fit) (he : f.jobs.get? id = some e) :
    ∃ e', g.jobs.get? id = some e' ∧
      ((H f e ∧ (e.work f id).Brings f id e e') ∨ e.MayBeAsked e') := by
  cases h with
  | turn hhears =>
    obtain ⟨e', he', hbrings⟩ := (workerTurn_works he (hf.ids id e he)).brings he
    exact ⟨e', he', Or.inl ⟨hhears e he, hbrings⟩⟩
  | beside h hentry =>
    rw [he] at hentry
    obtain ⟨e', he', ha⟩ := mayBeAsked_of_rel hentry
    exact ⟨e', he', Or.inr ha⟩

/-- A law that holds of a job at one point of a guided run holds at every later point. -/
theorem GuidedRun.keeps (h : GuidedRun H id f g) (hlaw : JobEntry.GuidedLaw H P)
    (hf : Published s₀ f) (he : f.jobs.get? id = some e) (hP : P f.config f.registry e) :
    Published s₀ g ∧ g.config = f.config ∧ g.registry = f.registry ∧
      ∃ e', g.jobs.get? id = some e' ∧ P f.config f.registry e' := by
  induction h with
  | refl => exact ⟨hf, rfl, rfl, e, he, hP⟩
  | tail _ hlast ih =>
    obtain ⟨hk, hconfig, hregistry, e₁, he₁, hP₁⟩ := ih
    obtain ⟨hconfig', hregistry'⟩ := hlast.step.settings hk.fit
    obtain ⟨e', he', hentry⟩ := hlast.entry hk.fit he₁
    refine ⟨hk.step hlast.step, hconfig'.trans hconfig, hregistry'.trans hregistry, e', he', ?_⟩
    rcases hentry with ⟨hhears, hbrings⟩ | ha
    · have hworks := hlaw.works _ id e₁ e' (hk.fit.ids id e₁ he₁) hhears
      rw [hconfig, hregistry] at hworks
      exact hworks hP₁ hbrings
    · exact hlaw.asked f.config f.registry e₁ e' hP₁ ha

/-- Turns of the worker alone, each of which hears what is allowed. -/
theorem guidedRun_turns (n : Nat) (h : ∀ k < n, ∀ e,
    (f.turns (List.replicate k (.worker id))).jobs.get? id = some e →
      H (f.turns (List.replicate k (.worker id))) e) :
    GuidedRun H id f (f.turns (List.replicate n (.worker id))) := by
  induction n with
  | zero => exact .refl
  | succ n ih =>
    have hlast : f.turns (List.replicate (n + 1) (.worker id)) =
        ((f.turns (List.replicate n (.worker id))).workerTurn id).fleet := by
      rw [turns, List.replicate_succ', List.foldl_append]
      rfl
    have hbefore := ih fun k hk => h k (Nat.lt_succ_of_lt hk)
    rw [hlast]
    exact hbefore.tail (.turn (h n (Nat.lt_succ_self n)))

end Fleet

end Flotilla
