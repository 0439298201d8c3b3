import Flotilla.Fleet.Run
import Flotilla.Proofs.Fleet.Aside
import Mathlib.Logic.Relation

/-!
# Runs of a fleet

A run is any row of steps: turns of tasks in any order, whatever is asked of the fleet from
outside, time that passes, and outages of the store that come and go. Whoever works with the store
from outside writes keys that it may write, and requests from outside belong to no job.

Whatever the agenda says is one order among all, so what holds of every run holds of a fleet that is
left to itself (`Fleet.run_settle`, `Fleet.run_elapse`, `Fleet.run_wait`).
-/

namespace Flotilla.Fleet

/-- A fleet at its start: requests are settled from now on, and nothing else has happened. -/
def opened (config : Config) (store : UnreliableStore) (registry : Registry) : Fleet :=
  (new config store registry).startCorrelator.2

/-- One step of a run; outsiders write keys with `may`. -/
inductive Step (may : String → Prop) (f : Fleet) : Fleet → Prop
  /-- A task takes a turn, whosever turn it is. -/
  | turn (task : Task) : Step may f (f.turn task).fleet
  | reschedule (agenda : Agenda) : Step may f { f with agenda }
  /-- The clock shows another time. -/
  | pass (time : Nat) : Step may f { f with now := time }
  /-- From now on the store fails in another way. -/
  | disturb (outages : List Outage) : Step may f { f with
      transactions := { f.transactions with store := { f.transactions.store with outages } } }
  | submit (target : String) (steps : List JobStep) : Step may f (f.submit target steps).2
  | stop (job : JobId) : Step may f (f.stop job).2
  | read (key : String) : Step may f (f.read key).2
  | scan (start : String) : Step may f (f.scan start).2
  | write (writes : List Write) (reads : Table String (Option Nat)) (h : ∀ w ∈ writes, may w.key) :
    Step may f (f.writeBehind writes reads).2
  | publish (m : Message) : Step may f (f.publish m).2
  | cancel (key : CorrelationKey) : Step may f (f.cancel key).2
  | cancelOwnedBy (job : JobId) : Step may f (f.cancelOwnedBy job).2
  | closeRequests : Step may f f.closeRequests.2
  /-- Subscriptions come and go, and the channel is there or not. -/
  | connect (broker : Broker Listener) : Step may f { f with broker }
  | equip (devices : List Device) : Step may f { f with devices }
  | call (number : Nat) (request : Request) (timeout : Nat) (h : request.owner = none) :
    Step may f (f.call number request timeout).2
  | callLater (number : Nat) (request : Request) (timeout : Nat) (h : request.owner = none) :
    Step may f (f.callLater number request timeout)
  | hangUp (number : Nat) : Step may f (f.hangUp number)
  | letGo : Step may f f.letGo

/-- A row of steps. -/
abbrev Run (may : String → Prop) : Fleet → Fleet → Prop := Relation.ReflTransGen (Step may)

variable {may : String → Prop} {f g : Fleet}

/-- Opening a fleet subscribes and wakes tasks, and nothing else. -/
theorem opened_eq (config : Config) (store : UnreliableStore) (registry : Registry) :
    ∃ agenda broker correlating held, opened config store registry =
      { new config store registry with agenda, broker, correlating, held } := by
  unfold opened startCorrelator subscribe
  cases (new config store registry).broker.subscribe
      (new config store registry).config.replyPattern .correlator with
  | error fault => exact ⟨_, _, _, _, rfl⟩
  | ok subscribed => exact ⟨_, _, _, _, rfl⟩

/-- At the start there are no jobs. -/
theorem get?_opened (config : Config) (store : UnreliableStore) (registry : Registry)
    (id : JobId) : (opened config store registry).jobs.get? id = none := by
  obtain ⟨agenda, broker, correlating, held, hopened⟩ := opened_eq config store registry
  rw [hopened]
  exact Table.get?_empty id

private theorem beside_addCaller (f : Fleet) (number : Nat) {c : Caller}
    (hc : ∀ request timeout, c.stage = .asking request timeout → request.owner = none) :
    Beside f (f.addCaller number c) := by
  have hset : Beside f { f with callers := f.callers.set number c } := by
    refine ⟨⟨rfl, rfl, rfl, rfl, rfl, ?_, .refl _ _⟩, .of_eq rfl rfl rfl⟩
    intro hf n c' hc'
    dsimp only at hc'
    rw [Table.get?_set] at hc'
    split at hc'
    · cases hc'
      exact hc
    · exact hf n c' hc'
  exact hset.trans (beside_wake _ _)

private theorem beside_call (f : Fleet) (number timeout : Nat) {request : Request}
    (h : request.owner = none) : Beside f (f.call number request timeout).2 := by
  have hsend := f.beside_send timeout h
  unfold call
  generalize f.send request timeout = r at hsend ⊢
  obtain ⟨result, g⟩ := r
  cases result with
  | error fault => exact hsend
  | ok handle => exact hsend.trans (g.beside_addCaller number nofun)

private theorem beside_hangUp (f : Fleet) (number : Nat) : Beside f (f.hangUp number) := by
  unfold hangUp
  split
  · refine Beside.trans ?_ (beside_wake _ _)
    refine ⟨⟨rfl, rfl, rfl, rfl, rfl, ?_, .refl _ _⟩, .of_eq rfl rfl rfl⟩
    intro hf n c hc
    dsimp only at hc
    rw [Table.get?_modify] at hc
    split at hc
    · obtain ⟨c', -, rfl⟩ := Option.map_eq_some_iff.1 hc
      rintro _ _ ⟨⟩
    · exact hf n c hc
  · exact .refl f

/-- A step is beside the jobs, or it is one of five that are not. -/
theorem Step.split (h : Step may f g) (hf : f.OutsideCallers) :
    Beside f g ∨ g = f.readerTurn.fleet ∨
      (∃ writes reads, (∀ w ∈ writes, may w.key) ∧ g = (f.writeBehind writes reads).2) ∨
      (∃ id, g = (f.workerTurn id).fleet) ∨
      (∃ target steps, g = (f.submit target steps).2) ∨ ∃ id, g = (f.stop id).2 := by
  cases h with
  | turn task =>
    cases task with
    | delivery => exact Or.inl f.beside_deliveryTurn
    | supervisor => exact Or.inl f.beside_supervisorTurn
    | watcher => exact Or.inl f.beside_watcherTurn
    | reader => exact Or.inr (Or.inl rfl)
    | responder index => exact Or.inl (f.beside_responderTurn index)
    | caller number => exact Or.inl (beside_callerTurn hf number)
    | worker job => exact Or.inr (Or.inr (Or.inr (Or.inl ⟨job, rfl⟩)))
  | reschedule agenda => exact Or.inl (f.beside_agenda agenda)
  | pass _ | disturb outages =>
    exact Or.inl ⟨⟨rfl, rfl, rfl, rfl, rfl, id, .refl _ _⟩, .of_eq rfl rfl rfl⟩
  | submit target steps => exact Or.inr (Or.inr (Or.inr (Or.inr (Or.inl ⟨target, steps, rfl⟩))))
  | stop job => exact Or.inr (Or.inr (Or.inr (Or.inr (Or.inr ⟨job, rfl⟩))))
  | read key =>
    exact Or.inl ⟨⟨rfl, rfl, rfl, rfl, rfl, id, .refl _ _⟩,
      .of_eq (f.transactions.store.store_read key) rfl rfl⟩
  | scan start =>
    exact Or.inl ⟨⟨rfl, rfl, rfl, rfl, rfl, id, .refl _ _⟩,
      .of_eq (f.transactions.store.store_scan start) rfl rfl⟩
  | write writes reads h => exact Or.inr (Or.inr (Or.inl ⟨writes, reads, h, rfl⟩))
  | publish m => exact Or.inl (f.beside_publish m)
  | cancel key => exact Or.inl (f.beside_setCorrelator (f.correlator.serves_cancel key))
  | cancelOwnedBy job =>
    exact Or.inl (f.beside_setCorrelator (f.correlator.serves_cancelOwnedBy job))
  | closeRequests => exact Or.inl (f.beside_setCorrelator f.correlator.serves_close)
  | connect broker => exact Or.inl (f.beside_broker broker)
  | equip devices => exact Or.inl (f.beside_devices devices f.responders)
  | call number request timeout h => exact Or.inl (f.beside_call number timeout h)
  | callLater number request timeout h =>
    refine Or.inl (f.beside_addCaller number ?_)
    rintro _ _ ⟨⟩
    exact h
  | hangUp number => exact Or.inl (f.beside_hangUp number)
  | letGo =>
    have hheld : Beside f { f with held := false } :=
      ⟨⟨rfl, rfl, rfl, rfl, rfl, id, .refl _ _⟩, .of_eq rfl rfl rfl⟩
    exact Or.inl (hheld.trans (beside_releaseCorrelator _))

/-- The fleet after tasks have taken a turn each, in this order. -/
def turns (f : Fleet) (tasks : List Task) : Fleet :=
  tasks.foldl (fun f task => (f.turn task).fleet) f

/-- Turns of tasks are a run. -/
theorem run_turns (f : Fleet) (tasks : List Task) : Run may f (f.turns tasks) := by
  induction tasks generalizing f with
  | nil => exact .refl
  | cons task tasks ih => exact .head (.turn task) (ih (f.turn task).fleet)

/-- The turn of the next task is a run. -/
theorem run_advanceTask (h : f.advanceTask = some g) : Run may f g := by
  unfold advanceTask at h
  split at h
  · next task _ =>
    have hturn : Step may f (f.turn task).fleet := .turn task
    cases ht : f.turn task with
    | goesOn k =>
      rw [ht] at h hturn
      cases h
      exact .single hturn
    | waits k =>
      rw [ht] at h hturn
      cases h
      exact (Relation.ReflTransGen.single hturn).tail (.reschedule _)
  · split at h
    · cases h
      exact .single (.reschedule _)
    · cases h

private theorem run_settleWithin (n : Nat) (f : Fleet) : Run may f (settleWithin n f) := by
  induction n generalizing f with
  | zero => exact .refl
  | succ n ih =>
    rw [settleWithin]
    split
    · next g hg => exact (run_advanceTask hg).trans (ih g)
    · exact .refl

/-- Letting all tasks settle is a run. -/
theorem run_settle (f : Fleet) : Run may f f.settle := run_settleWithin patience f

/-- Letting time come to a point is a run. -/
theorem run_comeTo (f : Fleet) (time : Nat) : Run may f (f.comeTo time) :=
  (Relation.ReflTransGen.single (Step.pass time)).tail (.reschedule _)

private theorem run_runUntil (reached : Fleet → Bool) (limit n : Nat) (f : Fleet) :
    Run may f (runUntil reached limit n f) := by
  induction n generalizing f with
  | zero => exact .refl
  | succ n ih =>
    rw [runUntil]
    split
    · next g hg => exact (run_advanceTask hg).trans (ih g)
    · split
      · exact .refl
      · split
        · split
          · exact (f.run_comeTo _).trans (ih _)
          · exact f.run_comeTo limit
        · exact f.run_comeTo limit

/-- Letting time pass is a run. -/
theorem run_elapse (f : Fleet) (span : Nat) : Run may f (f.elapse span) := by
  unfold elapse
  split
  · exact .refl
  · exact f.run_runUntil _ _ _

/-- Waiting for a job is a run. -/
theorem run_wait (f : Fleet) (job : JobId) : Run may f (f.wait job).2 := by
  unfold wait
  split
  · have hread : Run may f (f.read (Job.key job)).2 := .single (.read _)
    rw [← persisted_snd] at hread
    unfold archivedEnd
    generalize f.persisted job = r at hread ⊢
    obtain ⟨result, g⟩ := r
    cases result with
    | error fault => exact hread
    | ok known => cases known <;> exact hread
  · dsimp only
    have hrun : Run may f (if (f.jobs.get? job).any JobEntry.done then f else
        runUntil (fun f => (f.jobs.get? job).any JobEntry.done)
          (Nanos.tick (f.now + waitLimit)) patience f) := by
      split
      · exact .refl
      · exact f.run_runUntil _ _ _
    split <;> exact hrun

end Flotilla.Fleet
