import Flotilla.Proofs.Fleet.Programs
import Flotilla.Proofs.Store.Taking

/-!
# Fleets whose records are all taken

Over a store that takes every commit which does not depend on what was read, every job is recorded
(`Fleet.persist_taken`) and every submission accepted (`Fleet.submit_taken`).
-/

namespace Flotilla

namespace Fleet

variable {f : Fleet}

/-- A store that takes all commits takes a transaction that has read nothing. -/
theorem answerStore_commit (hf : f.transactions.store.TakesCommits) {tx : Tx}
    (hreads : tx.reads = ∅) :
    ∃ m, f.answerStore (.commit tx) =
        (.ok m.store.store,
          { f.chronicled (.committed tx.id tx.toWrites) with transactions := m }) ∧
      m.store.outages = f.transactions.store.outages ∧
      m.store.store = tx.toWrites.foldl Store.apply f.transactions.store.store := by
  let m : Transactions := { f.transactions with store := { f.transactions.store with
    store := tx.toWrites.foldl Store.apply f.transactions.store.store
    commits := f.transactions.store.commits + 1 } }
  have hcommit : f.transactions.commit tx = (.ok (), m) := by
    rw [Transactions.commit, hreads, hf.commit]
  have hanswer : (StoreAsk.commit tx).answer f.now f.transactions = (.ok m.store.store, m) := by
    rw [StoreAsk.answer, hcommit]
    rfl
  refine ⟨m, ?_, rfl, rfl⟩
  rw [answerStore, hanswer]
  rfl

/-- Every job is recorded. -/
theorem persist_taken (hf : f.transactions.store.TakesCommits) (job : Job) :
    ∃ tx m, f.persist job =
        (.ok (), f.stamped job, { f.recorded tx (f.stamped job) with transactions := m }) ∧
      m.store.outages = f.transactions.store.outages ∧
      m.store.store = f.transactions.store.store.apply (recordOf (f.stamped job)) := by
  have htaken : (f.persist job).1 = .ok () ∧
      (f.persist job).2.2.transactions.store.outages = f.transactions.store.outages := by
    have hcommit := hf.commit [recordOf (f.stamped job)]
    unfold persist
    dsimp only [Transactions.begin, Transactions.conclude, Transactions.commit]
    generalize hr : UnreliableStore.commit _ _ _ = r
    obtain rfl := hr.symm.trans hcommit
    exact ⟨rfl, rfl⟩
  rcases f.persist_cases job with ⟨fault, m, hpersist, -⟩ | ⟨tx, m, hpersist, hm⟩
  · rw [hpersist] at htaken
    cases htaken.1
  · rw [hpersist] at htaken
    exact ⟨tx, m, hpersist, htaken.2, hm⟩

/-- Every submission is accepted. -/
theorem submit_taken (hf : f.transactions.store.TakesCommits) (target : String)
    (steps : List JobStep) :
    ∃ job tx m agenda, job = Job.new f.nextId target steps f.nowMs ∧
      f.submit target steps = (.ok f.nextId, { f.recorded tx job with
        agenda
        submitted := f.submitted + 1
        transactions := m
        jobs := f.jobs.set f.nextId (.new job) }) ∧
      m.store.outages = f.transactions.store.outages ∧
      m.store.store = f.transactions.store.store.apply (recordOf job) := by
  let q : Fleet := { f with submitted := f.submitted + 1 }
  have hq : q.transactions.store.TakesCommits := hf
  obtain ⟨tx, m, hpersist, houtages, -⟩ :=
    persist_taken hq (Job.new f.nextId target steps f.nowMs)
  have hsubmit : (f.submit target steps).1 = .ok f.nextId ∧
      (f.submit target steps).2.transactions.store.outages = f.transactions.store.outages := by
    unfold submit
    dsimp only
    generalize hr : persist _ _ = r
    obtain rfl := hr.symm.trans hpersist
    exact ⟨rfl, houtages⟩
  rcases f.submit_new target steps with ⟨fault, m, hrefused, -⟩ |
    ⟨job, tx, m, agenda, hjob, htaken, hm⟩
  · rw [hrefused] at hsubmit
    cases hsubmit.1
  · rw [htaken] at hsubmit
    exact ⟨job, tx, m, agenda, hjob, htaken, hsubmit.2, hm⟩

/-- Whoever asks a job to stop at most looks its record up. -/
theorem takesCommits_stop (hf : f.transactions.store.TakesCommits) (job : JobId) :
    (f.stop job).2.transactions.store.TakesCommits := by
  have hread : (f.persisted job).2.transactions.store.TakesCommits := by
    rw [persisted_snd]
    exact hf.read (Job.key job)
  unfold stop
  split
  · generalize f.persisted job = r at hread ⊢
    obtain ⟨result, g⟩ := r
    rcases result with fault | ⟨⟨⟩⟩ <;> exact hread
  · split
    · dsimp only
      split <;> exact hf
    · exact hf
    · exact hf
    · exact hf

end Fleet

end Flotilla
