import Flotilla.Fleet.Jobs
import Flotilla.Proofs.Store.Versions
import Mathlib.Algebra.Group.Nat.Defs

/-!
# Recording a job

What recording a job does to a fleet. A record that the store takes is committed, written down and
announced; one that it refuses leaves no trace but the number of a transaction and the outages that
it used up (`Fleet.persist_cases`).
-/

namespace Flotilla.Fleet

/-- Waking tasks changes the agenda and nothing else. -/
theorem foldl_wake (f : Fleet) (tasks : List Task) :
    ∃ agenda, tasks.foldl wake f = { f with agenda } := by
  induction tasks generalizing f with
  | nil => exact ⟨f.agenda, rfl⟩
  | cons task tasks ih =>
    obtain ⟨agenda, h⟩ := ih (f.wake task)
    exact ⟨agenda, h⟩

/-- New requests and whoever is woken by what has become of the old ones. -/
theorem setCorrelator_eq (f : Fleet) (c : Correlator) :
    ∃ agenda, f.setCorrelator c = { f with correlator := c, agenda } :=
  foldl_wake { f with correlator := c } _

/-- A job with the time at which it is recorded. -/
def stamped (f : Fleet) (job : Job) : Job := { job with updatedAtMs := f.nowMs }

/-- The write of a job's record. -/
def recordOf (job : Job) : Write := .put (Job.key job.id) job.toRecord.toBytes

/-- The fleet after a record has been taken: it is written down, and observers see it. -/
def recorded (f : Fleet) (tx : Nat) (job : Job) : Fleet :=
  (f.chronicled (.committed tx [recordOf job])).announce job

/-- A record is refused and changes nothing, or it is taken and announced. -/
theorem persist_cases (f : Fleet) (job : Job) :
    (∃ fault m, f.persist job = (.error fault, f.stamped job, { f with transactions := m }) ∧
      m.store.store = f.transactions.store.store) ∨
    (∃ tx m, f.persist job =
        (.ok (), f.stamped job, { f.recorded tx (f.stamped job) with transactions := m }) ∧
      m.store.store = f.transactions.store.store.apply (recordOf (f.stamped job))) := by
  let tx : Tx := (Tx.new (f.transactions.opened + 1) f.now).put (Job.key job.id)
    (f.stamped job).toRecord.toBytes
  have hwrites : tx.toWrites = [recordOf (f.stamped job)] := rfl
  have herror := @UnreliableStore.store_commit_of_error f.transactions.store tx.toWrites tx.reads
  have hok := @UnreliableStore.commit_of_ok f.transactions.store tx.toWrites tx.reads
  unfold persist
  dsimp only [Transactions.begin, Transactions.conclude, Transactions.commit]
  generalize hcommit : UnreliableStore.commit _ _ _ = r
  obtain ⟨result, store⟩ := r
  have hresult : f.transactions.store.commit tx.toWrites tx.reads = (result, store) := hcommit
  rw [hresult] at herror hok
  cases result with
  | error fault => exact Or.inl ⟨_, _, rfl, herror rfl⟩
  | ok =>
    refine Or.inr ⟨tx.id, _, rfl, ?_⟩
    rw [hwrites] at hok
    exact (Store.commit_eq_ok_iff.1 (hok rfl)).1

/-- The number that a job gets that is submitted now. -/
def nextId (f : Fleet) : JobId := UInt64.ofNat (f.submitted + 1)

/-- A number that has been given out is not the next one. -/
theorem nextId_ne {f : Fleet} {id : JobId} (hgiven : id.toNat ≤ f.submitted)
    (hlt : f.submitted + 1 < 2 ^ 64) : f.nextId ≠ id := by
  rintro rfl
  rw [nextId, UInt64.toNat_ofNat', Nat.mod_eq_of_lt hlt] at hgiven
  omega

/-- The next number is at most one more than the count of submits. -/
theorem toNat_nextId_le (f : Fleet) : f.nextId.toNat ≤ f.submitted + 1 := by
  rw [nextId, UInt64.toNat_ofNat']
  exact Nat.mod_le _ _

/-- A job that is submitted is refused and uses up its number, or it is recorded and waits for its
worker. -/
theorem submit_new (f : Fleet) (target : String) (steps : List JobStep) :
    (∃ fault m, f.submit target steps =
        (.error fault, { f with submitted := f.submitted + 1, transactions := m }) ∧
      m.store.store = f.transactions.store.store) ∨
    (∃ job tx m agenda, job = Job.new f.nextId target steps f.nowMs ∧
      f.submit target steps = (.ok f.nextId, { f.recorded tx job with
        agenda
        submitted := f.submitted + 1
        transactions := m
        jobs := f.jobs.set f.nextId (.new job) }) ∧
      m.store.store = f.transactions.store.store.apply (recordOf job)) := by
  let q : Fleet := { f with submitted := f.submitted + 1 }
  have hcases := q.persist_cases (Job.new f.nextId target steps f.nowMs)
  unfold submit
  dsimp only
  generalize hpersist : persist _ _ = r
  rcases hcases with ⟨fault, m, hrefused, hm⟩ | ⟨tx, m, htaken, hm⟩
  · left
    obtain rfl := hpersist.symm.trans hrefused
    exact ⟨fault, m, rfl, hm⟩
  · right
    obtain rfl := hpersist.symm.trans htaken
    let job : Job := q.stamped (Job.new f.nextId target steps f.nowMs)
    have hjobs : (q.recorded tx job).jobs.set f.nextId (.new job) =
        f.jobs.set f.nextId (.new job) := Table.set_modify f.jobs f.nextId _ _
    refine ⟨job, tx, m, (q.recorded tx job).agenda.wake (.worker f.nextId), rfl, ?_, hm⟩
    rw [← hjobs]
    rfl

/-- The same, as far as it matters whichever job was submitted. -/
theorem submit_cases (f : Fleet) (target : String) (steps : List JobStep) :
    (∃ fault m, f.submit target steps =
        (.error fault, { f with submitted := f.submitted + 1, transactions := m }) ∧
      m.store.store = f.transactions.store.store) ∨
    (∃ job tx m agenda, job.id = f.nextId ∧ job.state = .created ∧
      f.submit target steps = (.ok f.nextId, { f.recorded tx job with
        agenda
        submitted := f.submitted + 1
        transactions := m
        jobs := f.jobs.set f.nextId (.new job) }) ∧
      m.store.store = f.transactions.store.store.apply (recordOf job)) := by
  rcases f.submit_new target steps with hrefused | ⟨job, tx, m, agenda, hjob, hsubmit, hm⟩
  · exact Or.inl hrefused
  · exact Or.inr ⟨job, tx, m, agenda, by rw [hjob]; rfl, by rw [hjob]; rfl, hsubmit, hm⟩

end Flotilla.Fleet
