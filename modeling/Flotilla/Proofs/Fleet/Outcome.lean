import Flotilla.Proofs.Fleet.FairTurns
import Flotilla.Proofs.Fleet.Following
import Flotilla.Proofs.Fleet.Pausing

/-!
# What becomes of a job

A job that nobody stops, and whose start and end the store takes within the tries that are allowed,
ends as the course of its attempts says: its worker makes the attempts one after the other, rests
between two of them for as long as the policy says, and leaves with the record of that end
(`Fleet.follows_script`).
-/

namespace Flotilla

/-- What a worker preserves that follows the course of its job. -/
theorem JobEntry.follows_law {p : Script} (hp : p.Playable) :
    JobEntry.GuidedLaw (Fleet.Hears p.trials p.moves) fun config registry e =>
      (e.Standing ∧ e.Unsplit) ∧ config = p.config ∧ registry = p.registry ∧
        (e.stop = true ∨ e.Follows p) := by
  refine (JobEntry.standing_unsplit_law _).refine ?_ ?_
  · rintro config registry e e' - ⟨hconfig, hregistry, hfollows⟩ (rfl | ⟨-, rfl⟩)
    · exact ⟨hconfig, hregistry, hfollows⟩
    · exact ⟨hconfig, hregistry, Or.inl rfl⟩
  · rintro f id e e' hid hhears ⟨hstanding, hunsplit⟩ ⟨hconfig, hregistry, hfollows⟩ hbrings
    refine ⟨hconfig, hregistry, ?_⟩
    by_cases hstop : e.stop = true
    · exact Or.inl (JobEntry.stop_of_brings hbrings hstop)
    · exact JobEntry.follows_of_brings hp hstanding hunsplit hstop (hfollows.resolve_left hstop)
        hid hconfig hregistry hhears hbrings

/-- A job that follows its course has its next step before it as it was submitted. -/
theorem JobEntry.Follows.fresh {p : Script} {e : JobEntry} (h : e.Follows p)
    (hstage : e.stage = .choosing) (s : JobStep) (hs : e.job.current? = some s) :
    s.attempts = 0 := by
  rw [Follows, hstage] at h
  obtain ⟨done, ahead, hreaches, hjob⟩ := h
  rw [← Job.current?_bare, hjob, Job.current?_along] at hs
  exact (hreaches.ahead s (List.mem_of_mem_head? hs)).attempts

namespace Fleet

variable {f g : Fleet} {id : JobId} {e : JobEntry} {s₀ : Store}

/-- As long as nobody asks for a stop, a job that was submitted follows its course. -/
theorem follows_of_guidedRun {p : Script} {store : UnreliableStore}
    (hregistry : p.registry.Spares)
    (hrun : Run (fun key => ¬IsJobKey key) (opened p.config store p.registry) f)
    (hsubmit : (f.submit p.target p.steps).1 = .ok p.id) (htime : f.nowMs = p.submittedAtMs)
    (hp : p.Playable)
    (hg : GuidedRun (Hears p.trials p.moves) p.id (f.submit p.target p.steps).2 g)
    (he : g.jobs.get? p.id = some e) (hstop : e.stop = false) :
    Published store.store g ∧ e.Follows p := by
  have hrun' := hrun.tail (.submit p.target p.steps)
  have hf := published_of_run hregistry hrun'
  obtain ⟨hconfig, hsame⟩ := settings_of_run hregistry hrun'
  have hentry := get?_submit hsubmit
  rw [htime] at hentry
  have hstanding : (JobEntry.new p.submitted).Standing := JobEntry.standing_new rfl
  obtain ⟨hpublished, -, -, e', he', -, -, -, hcases⟩ :=
    hg.keeps (JobEntry.follows_law hp) hf hentry
      ⟨⟨hstanding, fun hsplit => by cases hsplit⟩, hconfig, hsame, Or.inr rfl⟩
  cases he.symm.trans he'
  refine ⟨hpublished, hcases.resolve_left ?_⟩
  rw [hstop]
  exact Bool.false_ne_true

/-- A worker that has left has ended its job as laid down, and that is what is on record. -/
theorem ended_of_gone {p : Script} (hg : Published s₀ g) (he : g.jobs.get? p.id = some e)
    (hfollows : e.Follows p) (hgone : e.stage = .gone) :
    e.done = true ∧ e.archived = true ∧ p.Ended e.snapshot ∧
      (g.commitsOf p.id).getLast? = some e.snapshot.toRecord.toBytes := by
  rw [JobEntry.Follows, hgone] at hfollows
  obtain ⟨hdone, harchived, hended⟩ := hfollows
  exact ⟨hdone, harchived, hended, (hg.snapshot p.id e he).2⟩

end Fleet

end Flotilla
