import Flotilla.Proofs.Fleet.Halting
import Flotilla.Proofs.Fleet.StepEffects
import Flotilla.Proofs.Histories

/-!
# Workers that are not held up

A worker sleeps until a time, or waits for a reply or for a permit. If it gets turns again and
again, if time goes on, and if what it waits for comes, then it gets a turn in which it does not
have to wait (`Fleet.FairTo.goes_on`), and so it leaves in the end (`Fleet.FairTo.leaves`).
-/

namespace Flotilla

/-- A worker that has to wait leaves the entry of its job as it is. -/
theorem JobEntry.Blocked.eq_of_brings {e e' : JobEntry} {f : Fleet} {id : JobId}
    (h : e.Blocked f id) (hbrings : (e.work f id).Brings f id e e') : e' = e := by
  unfold Blocked at h
  unfold work at hbrings
  cases hstage : e.stage with
  | queued =>
    rw [hstage] at h hbrings
    dsimp only at h hbrings
    rw [if_neg (by rw [h]; exact Bool.false_ne_true)] at hbrings
    exact hbrings
  | resting event policy tries wakeAt =>
    rw [hstage] at h hbrings
    dsimp only at h hbrings
    rw [if_neg (Nat.not_le_of_lt h)] at hbrings
    exact hbrings
  | backingOff run wakeAt =>
    rw [hstage] at h hbrings
    dsimp only at h hbrings
    rw [if_neg (by rw [h.1]; exact Bool.false_ne_true), if_neg (Nat.not_le_of_lt h.2)] at hbrings
    exact hbrings
  | waiting run suspension =>
    rw [hstage] at h hbrings
    dsimp only at h hbrings
    rw [if_neg (by rw [h.1]; exact Bool.false_ne_true), h.2] at hbrings
    exact hbrings
  | gone =>
    rw [hstage] at hbrings
    exact hbrings
  | moving | choosing | starting | acting | succeeding | pausing | leaving =>
    rw [hstage] at h
    exact h.elim

namespace Fleet

variable {f g : Fleet} {id : JobId} {e : JobEntry} {may : String → Prop} {s₀ : Store}
  {σ : Nat → Fleet} {n m : Nat} {H : Fleet → JobEntry → Prop} {steps : List JobStep}

/-- A request that is settled stays settled. -/
theorem Step.settled (h : Step may f g) (hf : f.Rooted) {key : CorrelationKey}
    (hsettled : (f.correlator.outcome? key).isSome) : (g.correlator.outcome? key).isSome := by
  obtain ⟨owner, hserves⟩ := h.serves hf
  obtain ⟨outcome, hout⟩ := Option.isSome_iff_exists.1 hsettled
  exact Option.isSome_iff_exists.2 ⟨outcome, hserves.outcome key outcome hout⟩

/-- A request that is settled stays settled. -/
theorem stays_settled (hsteps : ∀ k ≥ n, Step may (σ k) (σ (k + 1))) (hrooted : ∀ k, (σ k).Rooted)
    {key : CorrelationKey} (hsettled : ((σ n).correlator.outcome? key).isSome) (hm : n ≤ m) :
    ((σ m).correlator.outcome? key).isSome := by
  induction m, hm using Nat.le_induction with
  | base => exact hsettled
  | succ k hk ih => exact (hsteps k hk).settled (hrooted k) ih

section Turns

variable (hsteps : ∀ m ≥ n, Guided H id (σ m) (σ (m + 1)))
  (hids : ∀ m e, (σ m).jobs.get? id = some e → e.job.id = id)
include hsteps hids

/-- As long as a worker does not go on, its stage stays what it is. -/
theorem stage_of_idle (he : (σ n).jobs.get? id = some e)
    (hidle : ∀ m ≥ n, ¬GoesOn id (σ m) (σ (m + 1))) (hm : n ≤ m) :
    ∃ e', (σ m).jobs.get? id = some e' ∧ e'.stage = e.stage := by
  induction m, hm using Nat.le_induction with
  | base => exact ⟨e, he, rfl⟩
  | succ m hm ih =>
    obtain ⟨e₁, he₁, hstage⟩ := ih
    have hnext := hsteps m hm
    generalize hg : σ (m + 1) = g at hnext
    cases hnext with
    | turn =>
      obtain ⟨e', he', hbrings⟩ := (workerTurn_works he₁ (hids m e₁ he₁)).brings he₁
      have hblocked : e₁.Blocked (σ m) id := by
        by_contra hfree
        refine hidle m hm ⟨hg, fun e₂ he₂ => ?_⟩
        cases he₁.symm.trans he₂
        exact hfree
      obtain rfl := hblocked.eq_of_brings hbrings
      exact ⟨e', he', hstage⟩
    | beside _ hentry =>
      rw [he₁] at hentry
      obtain ⟨e', he', ha⟩ := mayBeAsked_of_rel hentry
      exact ⟨e', he', ha.same.stage.trans hstage⟩

/-- A worker that neither stands in line nor has left goes on in the end, if the reply comes that it
may wait for. -/
theorem goes_on_of_turns
    (hturns : ∀ k time, ∃ m ≥ k, σ (m + 1) = ((σ m).workerTurn id).fleet ∧ time ≤ (σ m).now)
    (he : (σ n).jobs.get? id = some e) (hqueued : e.stage ≠ .queued) (hgone : e.stage ≠ .gone)
    (hsettled : ∀ run key next, e.stage = .waiting run (.reply key next) →
      ∃ m ≥ n, ∀ k ≥ m, ((σ k).correlator.outcome? key).isSome) :
    ∃ m ≥ n, GoesOn id (σ m) (σ (m + 1)) := by
  by_contra hnever
  push Not at hnever
  -- so all its turns find it waiting at the same stage
  have hblocked (k time : Nat) (hk : n ≤ k) : ∃ m ≥ k, time ≤ (σ m).now ∧
      ∃ e', (σ m).jobs.get? id = some e' ∧ e'.stage = e.stage ∧ e'.Blocked (σ m) id := by
    obtain ⟨m, hm, hturn, htime⟩ := hturns k time
    have hnm := Nat.le_trans hk hm
    obtain ⟨e', he', hstage⟩ := stage_of_idle hsteps hids he hnever hnm
    refine ⟨m, hm, htime, e', he', hstage, ?_⟩
    by_contra hfree
    refine hnever m hnm ⟨hturn, fun e₂ he₂ => ?_⟩
    cases he'.symm.trans he₂
    exact hfree
  have hsleeps (wakeAt : Nat) : ∃ m ≥ n, wakeAt ≤ (σ m).now ∧
      ∃ e', (σ m).jobs.get? id = some e' ∧ e'.stage = e.stage ∧ e'.Blocked (σ m) id :=
    hblocked n wakeAt (Nat.le_refl n)
  cases hstage : e.stage with
  | queued => exact hqueued hstage
  | gone => exact hgone hstage
  | moving | choosing | starting | acting | succeeding | pausing | leaving =>
    obtain ⟨m, -, -, e', -, hsame, hwaits⟩ := hsleeps 0
    rw [JobEntry.Blocked, hsame, hstage] at hwaits
    exact hwaits
  | resting event policy tries wakeAt =>
    obtain ⟨m, -, htime, e', -, hsame, hwaits⟩ := hsleeps wakeAt
    rw [JobEntry.Blocked, hsame, hstage] at hwaits
    exact Nat.not_lt_of_le htime hwaits
  | backingOff run wakeAt =>
    obtain ⟨m, -, htime, e', -, hsame, hwaits⟩ := hsleeps wakeAt
    rw [JobEntry.Blocked, hsame, hstage] at hwaits
    exact Nat.not_lt_of_le htime hwaits.2
  | waiting run suspension =>
    cases suspension with
    | timer wakeAt next =>
      obtain ⟨m, -, htime, e', -, hsame, hwaits⟩ := hsleeps wakeAt
      rw [JobEntry.Blocked, hsame, hstage] at hwaits
      have hresume := hwaits.2
      rw [resume?, if_pos htime] at hresume
      cases hresume
    | reply key next =>
      obtain ⟨k, hk, hstays⟩ := hsettled run key next hstage
      obtain ⟨m, hm, -, e', -, hsame, hwaits⟩ := hblocked k 0 hk
      rw [JobEntry.Blocked, hsame, hstage] at hwaits
      obtain ⟨outcome, hout⟩ := Option.isSome_iff_exists.1 (hstays m hm)
      have hresume := hwaits.2
      rw [resume?, hout] at hresume
      cases hresume

end Turns

/-- A run is fair to the worker of a job: the worker gets a turn again and again, and every time
comes. A request whose reply it waits for is settled in the end, by that reply or without one, and
if it stands in line for a permit it gets a turn when there is one for it. -/
structure FairTo (id : JobId) (σ : Nat → Fleet) : Prop where
  turns : ∀ n, ∃ m ≥ n, σ (m + 1) = ((σ m).workerTurn id).fleet
  time : ∀ time, ∃ n, ∀ m ≥ n, time ≤ (σ m).now
  settled : ∀ n e run key next, (σ n).jobs.get? id = some e →
    e.stage = .waiting run (.reply key next) → ∃ m ≥ n, ((σ m).correlator.outcome? key).isSome
  admitted : ∀ n e, (σ n).jobs.get? id = some e → e.stage = .queued →
    ∃ m ≥ n, σ (m + 1) = ((σ m).workerTurn id).fleet ∧ ((σ m).permits.acquire id).1 = true

namespace FairTo

/-- The worker gets a turn as late as one likes. -/
theorem turn_after (h : FairTo id σ) (n time : Nat) :
    ∃ m ≥ n, σ (m + 1) = ((σ m).workerTurn id).fleet ∧ time ≤ (σ m).now := by
  obtain ⟨k, hk⟩ := h.time time
  obtain ⟨m, hm, hturn⟩ := h.turns (max n k)
  exact ⟨m, Nat.le_trans (Nat.le_max_left n k) hm, hturn,
    hk m (Nat.le_trans (Nat.le_max_right n k) hm)⟩

/-- In a run that is fair to it, a worker goes on again and again, or has left. -/
theorem goes_on (h : FairTo id σ) (hsteps : ∀ n, Guided H id (σ n) (σ (n + 1)))
    (hrooted : ∀ n, (σ n).Rooted) (hentry : ∀ n, ∃ e, (σ n).jobs.get? id = some e) (n : Nat) :
    ∃ m ≥ n, HasLeft id (σ m) ∨ GoesOn id (σ m) (σ (m + 1)) := by
  have hadmitted (k : Nat) (e : JobEntry) (he : (σ k).jobs.get? id = some e)
      (hqueued : e.stage ≠ .queued) : ∃ m ≥ k, HasLeft id (σ m) ∨ GoesOn id (σ m) (σ (m + 1)) := by
    by_cases hgone : e.stage = .gone
    · exact ⟨k, Nat.le_refl k, Or.inl ⟨e, he, hgone⟩⟩
    obtain ⟨m, hm, hgoes⟩ := goes_on_of_turns (fun m _ => hsteps m) (fun m => (hrooted m).ids id)
      h.turn_after he hqueued hgone fun run key next hstage => by
        obtain ⟨m, hm, hsettled⟩ := h.settled k e run key next he hstage
        exact ⟨m, hm, fun j hj =>
          stays_settled (fun i _ => (hsteps i).step) hrooted hsettled hj⟩
    exact ⟨m, hm, Or.inr hgoes⟩
  obtain ⟨e, he⟩ := hentry n
  by_cases hqueued : e.stage = .queued
  · obtain ⟨m, hm, hturn, hpermit⟩ := h.admitted n e he hqueued
    obtain ⟨e', he'⟩ := hentry m
    by_cases hstill : e'.stage = .queued
    · refine ⟨m, hm, Or.inr ⟨hturn, fun e₂ he₂ hblocked => ?_⟩⟩
      cases he'.symm.trans he₂
      rw [JobEntry.Blocked, hstill] at hblocked
      cases hblocked.symm.trans hpermit
    · obtain ⟨k, hk, hgoes⟩ := hadmitted m e' he' hstill
      exact ⟨k, Nat.le_trans hm hk, hgoes⟩
  · exact hadmitted n e he hqueued

/-- In a run that is fair to it, a worker leaves in the end. -/
theorem leaves (h : FairTo id σ) (hf : Published s₀ (σ 0)) (hrooted : (σ 0).Rooted)
    (he : (σ 0).jobs.get? id = some e) (hstanding : e.Standing)
    (hadvances : e.Advances steps (σ 0).config) (hcounted : e.stage.Counted)
    (hsteps : ∀ n, Guided H id (σ n) (σ (n + 1))) : ∃ n, HasLeft id (σ n) := by
  have hkept (n : Nat) : (σ n).Rooted ∧ Published s₀ (σ n) ∧ ∃ e, (σ n).jobs.get? id = some e := by
    induction n with
    | zero => exact ⟨hrooted, hf, e, he⟩
    | succ n ih =>
      obtain ⟨hn, hpublished, e₁, he₁⟩ := ih
      have hstep := (hsteps n).step
      obtain ⟨e', he', -⟩ := (hsteps n).entry hpublished.fit he₁
      exact ⟨(hstep.leads hn).rooted hn, hpublished.step hstep, e', he'⟩
  exact halts hf he hstanding hadvances hcounted hsteps
    (h.goes_on hsteps (fun n => (hkept n).1) fun n => (hkept n).2.2)

end FairTo

end Fleet

end Flotilla
