import Flotilla.Fleet.Caller
import Flotilla.Proofs.Fleet.Sparing
import Flotilla.Proofs.Fleet.Working

/-!
# What happens beside the jobs

The tasks that are not workers leave all jobs alone, and the requests that they send or settle on
their own account belong to no job (`Fleet.Aside`). All but the reader of the notices leave what is
told of job records alone as well (`Fleet.Beside`).
-/

namespace Flotilla.Fleet

/-- Whoever waits outside of jobs asks in no job's name. -/
def OutsideCallers (f : Fleet) : Prop :=
  ∀ number c, f.callers.get? number = some c →
    ∀ request timeout, c.stage = .asking request timeout → request.owner = none

/-- Whether callers ask in the name of a job depends on the callers alone. -/
theorem outsideCallers_of_eq {f g : Fleet} (h : g.callers = f.callers) (hf : f.OutsideCallers) :
    g.OutsideCallers := by
  rwa [OutsideCallers, h]

/-- No job is touched, and no request is sent in the name of one. -/
structure Aside (f g : Fleet) : Prop where
  config : g.config = f.config
  registry : g.registry = f.registry
  submitted : g.submitted = f.submitted
  jobs : g.jobs = f.jobs
  permits : g.permits = f.permits
  callers : f.OutsideCallers → g.OutsideCallers
  requests : Correlator.Serves none f.correlator g.correlator

variable {f g h : Fleet}

/-- Where nothing happens, no job is touched. -/
theorem Aside.refl (f : Fleet) : Aside f f := ⟨rfl, rfl, rfl, rfl, rfl, id, .refl _ _⟩

/-- Two steps that touch no job touch none together. -/
theorem Aside.trans (hfg : Aside f g) (hgh : Aside g h) : Aside f h where
  config := hgh.config.trans hfg.config
  registry := hgh.registry.trans hfg.registry
  submitted := hgh.submitted.trans hfg.submitted
  jobs := hgh.jobs.trans hfg.jobs
  permits := hgh.permits.trans hfg.permits
  callers hf := hgh.callers (hfg.callers hf)
  requests := hfg.requests.trans hgh.requests

/-- Neither jobs nor what is told of them is touched. -/
structure Beside (f g : Fleet) : Prop where
  aside : Aside f g
  apart : Apart f g

/-- Where nothing happens, neither jobs nor what is told of them is touched. -/
theorem Beside.refl (f : Fleet) : Beside f f := ⟨.refl f, .refl f⟩

/-- Two steps that touch neither jobs nor what is told of them do not together. -/
theorem Beside.trans (hfg : Beside f g) (hgh : Beside g h) : Beside f h :=
  ⟨hfg.aside.trans hgh.aside, hfg.apart.trans hgh.apart⟩

/-- Waking a task touches no job. -/
theorem beside_wake (f : Fleet) (task : Task) : Beside f (f.wake task) :=
  ⟨⟨rfl, rfl, rfl, rfl, rfl, id, .refl _ _⟩, .of_eq rfl rfl rfl⟩

/-- The agenda is not about jobs. -/
theorem beside_agenda (f : Fleet) (agenda : Agenda) : Beside f { f with agenda } :=
  ⟨⟨rfl, rfl, rfl, rfl, rfl, id, .refl _ _⟩, .of_eq rfl rfl rfl⟩

/-- The broker is not about jobs. -/
theorem beside_broker (f : Fleet) (broker : Broker Listener) : Beside f { f with broker } :=
  ⟨⟨rfl, rfl, rfl, rfl, rfl, id, .refl _ _⟩, .of_eq rfl rfl rfl⟩

/-- Devices and their responders are not about jobs. -/
theorem beside_devices (f : Fleet) (devices : List Device) (responders : List Responder) :
    Beside f { f with devices, responders } :=
  ⟨⟨rfl, rfl, rfl, rfl, rfl, id, .refl _ _⟩, .of_eq rfl rfl rfl⟩

private theorem beside_chronicled (f : Fleet) (event : Event) (hevent : event.Spares) :
    Beside f (f.chronicled event) := by
  refine ⟨⟨rfl, rfl, rfl, rfl, rfl, id, .refl _ _⟩, .of_store_eq rfl rfl rfl fun e he => ?_⟩
  obtain rfl := List.mem_singleton.1 he
  exact hevent

/-- Settling requests in nobody's name touches no job. -/
theorem beside_setCorrelator (f : Fleet) {c : Correlator}
    (hc : Correlator.Serves none f.correlator c) : Beside f (f.setCorrelator c) := by
  obtain ⟨agenda, hset⟩ := f.setCorrelator_eq c
  rw [hset]
  exact ⟨⟨rfl, rfl, rfl, rfl, rfl, id, hc⟩, .of_eq rfl rfl rfl⟩

/-- Sending a request in nobody's name touches no job. -/
theorem beside_send (f : Fleet) {request : Request} (timeout : Nat)
    (howner : request.owner = none) : Beside f (f.send request timeout).2 := by
  refine ⟨?_, f.apart_send request timeout⟩
  obtain ⟨agenda, broker, events, hsend, -⟩ := f.send_eq request timeout
  rw [hsend]
  exact ⟨rfl, rfl, rfl, rfl, rfl, id,
    howner ▸ f.correlator.serves_send f.now f.broker.publish request timeout⟩

/-- Publishing a message touches no job. -/
theorem beside_publish (f : Fleet) (m : Message) : Beside f (f.publish m).2 := by
  unfold publish
  cases f.broker.publish m with
  | error fault => exact .refl f
  | ok broker =>
    have hbroker := f.beside_broker broker
    have hpublished := beside_chronicled { f with broker } (.published m) trivial
    exact (hbroker.trans hpublished).trans (beside_wake _ _)

/-- Letting go of the correlator touches no job. -/
theorem beside_releaseCorrelator (f : Fleet) : Beside f f.releaseCorrelator := by
  unfold releaseCorrelator
  split
  · have hclosed : Beside f { f with correlating := false } :=
      ⟨⟨rfl, rfl, rfl, rfl, rfl, id, .refl _ _⟩, .of_eq rfl rfl rfl⟩
    refine hclosed.trans (Beside.trans ?_ (beside_agenda _ _))
    exact beside_setCorrelator { f with correlating := false } f.correlator.serves_abandon
  · exact .refl f

private theorem beside_handTo (f : Fleet) (m : Message) (s : Subscription Listener) :
    Beside f (f.handTo m s) := by
  unfold handTo
  split
  · next name _ => exact f.beside_chronicled (.delivered s.id name m) trivial
  · exact (f.beside_devices f.devices _).trans (beside_wake _ _)
  · unfold onMessage
    split
    · exact f.beside_setCorrelator (f.correlator.serves_onMessage f.now m)
    · exact .refl f

/-- Handing a message to its recipients touches no job. -/
theorem beside_handToAll (f : Fleet) (m : Message) (subscriptions : List (Subscription Listener)) :
    Beside f (subscriptions.foldl (fun f s => f.handTo m s) f) := by
  induction subscriptions generalizing f with
  | nil => exact .refl f
  | cons s subscriptions ih => exact (f.beside_handTo m s).trans (ih (f.handTo m s))

/-- The turn of the delivery touches no job. -/
theorem beside_deliveryTurn (f : Fleet) : Beside f f.deliveryTurn.fleet := by
  unfold deliveryTurn
  split
  · exact f.beside_broker f.broker.rest
  · next m subscriptions broker _ =>
    exact (f.beside_broker broker).trans (beside_handToAll { f with broker } m subscriptions)

/-- The turn of the supervisor touches no job. -/
theorem beside_supervisorTurn (f : Fleet) : Beside f f.supervisorTurn.fleet := by
  unfold supervisorTurn
  split
  · have hpoll := f.beside_setCorrelator (f.correlator.serves_pollDeadlines f.now)
    dsimp only
    split <;> exact hpoll.trans (beside_agenda _ _)
  · exact .refl f

/-- The turn of the watcher touches no job. -/
theorem beside_watcherTurn (f : Fleet) : Beside f f.watcherTurn.fleet := by
  unfold watcherTurn
  split
  · have hclosed := f.beside_chronicled .closed trivial
    dsimp only [Turn.fleet]
    split
    · exact hclosed.trans (beside_setCorrelator _ (Correlator.serves_close _))
    · exact hclosed
  · exact .refl f

private theorem beside_respond (f : Fleet) (index : Nat) (r : Responder) (d : Device) :
    Beside f (f.respond index r d).fleet := by
  unfold respond
  exact (f.beside_devices _ _).trans (beside_publish _ _)

/-- The turn of a responder touches no job. -/
theorem beside_responderTurn (f : Fleet) (index : Nat) :
    Beside f (f.responderTurn index).fleet := by
  unfold responderTurn
  split
  · exact .refl f
  · next r _ =>
    split
    · exact .refl f
    · next d _ =>
      split
      · have hreceived := f.beside_devices (f.devices.modify r.device Device.receive) f.responders
        dsimp only
        split
        · exact f.beside_devices _ _
        · split
          · exact hreceived.trans (beside_respond _ _ _ _)
          · exact (f.beside_devices _ _).trans (beside_agenda _ _)
      · split
        · exact f.beside_respond index r d
        · exact .refl f
      · exact .refl f

private theorem beside_callerLeaves (f : Fleet) (number : Nat) :
    Beside f (f.callerLeaves number).fleet := by
  have herased : Beside f { f with callers := f.callers.erase number } := by
    refine ⟨⟨rfl, rfl, rfl, rfl, rfl, ?_, .refl _ _⟩, .of_eq rfl rfl rfl⟩
    intro hf n c hc
    dsimp only at hc
    rw [Table.get?_erase] at hc
    split at hc
    · cases hc
    · exact hf n c hc
  exact herased.trans (beside_releaseCorrelator _)

private theorem beside_callerLearns (f : Fleet) (number : Nat) (outcome : Outcome) :
    Beside f (f.callerLearns number outcome).fleet :=
  (f.beside_chronicled (.settled number outcome) trivial).trans (beside_callerLeaves _ number)

/-- The turn of a caller from outside touches no job. -/
theorem beside_callerTurn (hf : f.OutsideCallers) (number : Nat) :
    Beside f (f.callerTurn number).fleet := by
  unfold callerTurn
  split
  · exact .refl f
  · next c hc =>
    split
    · next request timeout hstage =>
      have hsend := f.beside_send timeout (hf number c hc request timeout hstage)
      generalize f.send request timeout = r at hsend ⊢
      obtain ⟨result, g⟩ := r
      cases result with
      | error fault => exact hsend.trans (g.beside_callerLearns number _)
      | ok handle =>
        have hset : Beside g { g with
            callers := g.callers.set number { c with stage := .waiting handle.key } } := by
          refine ⟨⟨rfl, rfl, rfl, rfl, rfl, ?_, .refl _ _⟩, .of_eq rfl rfl rfl⟩
          intro hg n c' hc' request' timeout' hstage'
          dsimp only at hc'
          rw [Table.get?_set] at hc'
          split at hc'
          · cases hc'
            cases hstage'
          · exact hg n c' hc' request' timeout' hstage'
        exact hsend.trans hset
    · split
      · exact f.beside_callerLearns number _
      · exact .refl f
    · exact f.beside_callerLeaves number

/-- The reader of the notices writes them down, and changes nothing else. -/
theorem readerTurn_eq (f : Fleet) : f.readerTurn.fleet = { f with
    unread := []
    chronicle := f.chronicle ++
      f.unread.map fun n => (f.now, .noticed n.1 n.2.1 n.2.2) } := by
  unfold readerTurn
  dsimp only [Turn.fleet]
  have hread (l : List (JobId × JobState × Nat)) : ∀ g : Fleet,
      l.foldl (fun f n => f.chronicled (.noticed n.1 n.2.1 n.2.2)) g = { g with
        chronicle := g.chronicle ++ l.map fun n => (g.now, .noticed n.1 n.2.1 n.2.2) } := by
    induction l with
    | nil => exact fun g => by rw [List.map_nil, List.append_nil]; rfl
    | cons n l ih =>
      intro g
      rw [List.foldl_cons, ih, chronicled]
      dsimp only
      rw [List.append_assoc]
      rfl
  exact hread f.unread { f with unread := [] }

/-- The turn of the reader takes notices, and touches no job. -/
theorem aside_readerTurn (f : Fleet) : Aside f f.readerTurn.fleet := by
  rw [readerTurn_eq]
  exact ⟨rfl, rfl, rfl, rfl, rfl, id, .refl _ _⟩

end Flotilla.Fleet
