import Flotilla.Proofs.Channels.Broker
import Flotilla.Proofs.Fleet.StepEffects
import Flotilla.Proofs.Requests.Answering

/-!
# What is written beside job records, and what is answered

In most steps of a run nothing is written but records of jobs, and no request is answered
(`Fleet.Routine`). There are three exceptions (`Fleet.Loose.routine_or`): the delivery of a message,
which is all that answers requests (`Fleet.filed_deliveryTurn`, `Fleet.Replies`), the turn of a
worker, which answers none (`Fleet.unanswered_workerTurn`), and a write from outside.
-/

namespace Flotilla

/-- An event that tells of no commit but that of job records. -/
def Event.Files : Event → Prop
  | .committed _ writes => ∀ w ∈ writes, IsJobKey w.key
  | .published _ | .delivered .. | .recorded .. | .noticed .. | .noted .. | .settled .. | .closed =>
    True

namespace Fleet

open Correlator (Unanswered)

/-- Nothing was written but job records. -/
structure Filed (f g : Fleet) : Prop where
  chronicle : ∃ events, g.chronicle = f.chronicle ++ events ∧ ∀ e ∈ events, e.2.Files
  records : ∀ key, ¬IsJobKey key →
    g.transactions.store.store.read key = f.transactions.store.store.read key

/-- Nothing was written but job records, and no request was answered. -/
structure Routine (f g : Fleet) : Prop where
  filed : Filed f g
  requests : Unanswered f.correlator g.correlator

variable {f g h : Fleet} {id : JobId} {e : JobEntry}

private theorem Filed.of_store_eq (hstore : g.transactions.store.store = f.transactions.store.store)
    {events : List (Nat × Event)} (hchronicle : g.chronicle = f.chronicle ++ events)
    (hevents : ∀ e ∈ events, e.2.Files) : Filed f g where
  chronicle := ⟨events, hchronicle, hevents⟩
  records key _ := by rw [hstore]

/-- Where the store and the chronicle stay, nothing is written. -/
theorem Filed.of_eq (hstore : g.transactions.store.store = f.transactions.store.store)
    (hchronicle : g.chronicle = f.chronicle) : Filed f g :=
  .of_store_eq hstore (hchronicle.trans (List.append_nil _).symm) nofun

/-- Where nothing happens, nothing is written. -/
theorem Filed.refl (f : Fleet) : Filed f f := .of_eq rfl rfl

private theorem Filed.trans (hfg : Filed f g) (hgh : Filed g h) : Filed f h where
  chronicle := Chronicle.append_trans hfg.chronicle hgh.chronicle
  records key hkey := (hgh.records key hkey).trans (hfg.records key hkey)

private theorem filed_chronicled (f : Fleet) (event : Event) (hevent : event.Files) :
    Filed f (f.chronicled event) := by
  refine .of_store_eq rfl rfl fun e he => ?_
  obtain rfl := List.mem_singleton.1 he
  exact hevent

/-- The record of a job is taken. -/
theorem filed_recorded {job : Job} {tx : Nat}
    (hstore : g.transactions.store.store = f.transactions.store.store.apply (recordOf job))
    (hchronicle : g.chronicle = (f.recorded tx job).chronicle) : Filed f g where
  chronicle := by
    refine ⟨[(f.now, .committed tx [recordOf job]),
      (f.now, .recorded job.id job.state job.currentStep)],
      hchronicle.trans (List.append_assoc _ _ _), fun e he => ?_⟩
    rcases List.mem_cons.1 he with rfl | he
    · intro w hw
      obtain rfl := List.mem_singleton.1 hw
      exact isJobKey_key job.id
    · obtain rfl := List.mem_singleton.1 he
      trivial
  records key hkey := by
    rw [hstore]
    exact Store.read_apply_of_ne _ fun heq => hkey (heq ▸ isJobKey_key job.id)

/-- Where store, chronicle and requests stay, all is routine. -/
theorem Routine.of_eq (hstore : g.transactions.store.store = f.transactions.store.store)
    (hchronicle : g.chronicle = f.chronicle) (hcorrelator : g.correlator = f.correlator) :
    Routine f g :=
  ⟨.of_eq hstore hchronicle, hcorrelator ▸ .refl _⟩

/-- Where nothing happens, all is routine. -/
theorem Routine.refl (f : Fleet) : Routine f f := .of_eq rfl rfl rfl

private theorem Routine.trans (hfg : Routine f g) (hgh : Routine g h) : Routine f h :=
  ⟨hfg.filed.trans hgh.filed, hfg.requests.trans hgh.requests⟩

private theorem routine_chronicled (f : Fleet) (event : Event) (hevent : event.Files) :
    Routine f (f.chronicled event) :=
  ⟨f.filed_chronicled event hevent, .refl _⟩

/-- Settling requests without an answer is routine. -/
theorem routine_setCorrelator (f : Fleet) {c : Correlator} (hc : Unanswered f.correlator c) :
    Routine f (f.setCorrelator c) := by
  obtain ⟨agenda, hset⟩ := f.setCorrelator_eq c
  rw [hset]
  exact ⟨.of_eq rfl rfl, hc⟩

/-- Sending a request is routine. -/
theorem routine_send (f : Fleet) (request : Request) (timeout : Nat) :
    Routine f (f.send request timeout).2 := by
  obtain ⟨agenda, broker, events, hsend, hevents⟩ := f.send_eq request timeout
  rw [hsend]
  refine ⟨.of_store_eq rfl rfl fun e he => ?_,
    f.correlator.unanswered_send f.now f.broker.publish request timeout⟩
  obtain ⟨m, hm⟩ := hevents e he
  rw [hm]
  trivial

/-- Publishing a message is routine. -/
theorem routine_publish (f : Fleet) (m : Message) : Routine f (f.publish m).2 := by
  unfold publish
  cases f.broker.publish m with
  | error fault => exact .refl f
  | ok broker =>
    have hbroker : Routine f { f with broker } := .of_eq rfl rfl rfl
    have hpublished := routine_chronicled { f with broker } (.published m) trivial
    exact (hbroker.trans hpublished).trans (.of_eq rfl rfl rfl)

private theorem routine_releaseCorrelator (f : Fleet) : Routine f f.releaseCorrelator := by
  unfold releaseCorrelator
  split
  · have hclosed : Routine f { f with correlating := false } := .of_eq rfl rfl rfl
    have habandoned :=
      routine_setCorrelator { f with correlating := false } f.correlator.unanswered_abandon
    exact (hclosed.trans habandoned).trans (.of_eq rfl rfl rfl)
  · exact .refl f

/-- Asking for a stop is routine. -/
theorem routine_stop (f : Fleet) (id : JobId) : Routine f (f.stop id).2 := by
  rcases f.stop_cases id with
    ⟨fault, m, hstop, hm⟩ | ⟨e, -, -, hstop⟩ | ⟨e, agenda, -, -, hstop⟩ <;>
    rw [hstop]
  · exact .of_eq hm rfl rfl
  · exact .refl f
  · exact .of_eq rfl rfl rfl

/-- Submitting a job is routine. -/
theorem routine_submit (f : Fleet) (target : String) (steps : List JobStep) :
    Routine f (f.submit target steps).2 := by
  rcases f.submit_new target steps with ⟨fault, m, hsubmit, hm⟩ |
    ⟨job, tx, m, agenda, -, hsubmit, hm⟩ <;> rw [hsubmit]
  · exact .of_eq hm rfl rfl
  · exact ⟨filed_recorded hm rfl, .refl _⟩

/-- The turn of the supervisor is routine. -/
theorem routine_supervisorTurn (f : Fleet) : Routine f f.supervisorTurn.fleet := by
  unfold supervisorTurn
  split
  · have hpoll := f.routine_setCorrelator (f.correlator.unanswered_pollDeadlines f.now)
    dsimp only
    split <;> exact hpoll.trans (.of_eq rfl rfl rfl)
  · exact .refl f

/-- The turn of the watcher is routine. -/
theorem routine_watcherTurn (f : Fleet) : Routine f f.watcherTurn.fleet := by
  unfold watcherTurn
  split
  · have hclosed := f.routine_chronicled .closed trivial
    dsimp only [Turn.fleet]
    split
    · exact hclosed.trans (routine_setCorrelator _ (Correlator.unanswered_close _))
    · exact hclosed
  · exact .refl f

private theorem routine_respond (f : Fleet) (index : Nat) (r : Responder) (d : Device) :
    Routine f (f.respond index r d).fleet := by
  unfold respond
  refine Routine.trans ?_ (routine_publish _ _)
  exact .of_eq rfl rfl rfl

/-- The turn of a responder is routine. -/
theorem routine_responderTurn (f : Fleet) (index : Nat) :
    Routine f (f.responderTurn index).fleet := by
  unfold responderTurn
  split
  · exact .refl f
  · next r _ =>
    split
    · exact .refl f
    · next d _ =>
      split
      · have hreceived : Routine f (f.modifyDevice r.device Device.receive) := .of_eq rfl rfl rfl
        dsimp only
        split
        · exact .of_eq rfl rfl rfl
        · split
          · exact hreceived.trans (routine_respond _ _ _ _)
          · exact .of_eq rfl rfl rfl
      · split
        · exact f.routine_respond index r d
        · exact .refl f
      · exact .refl f

private theorem routine_callerLeaves (f : Fleet) (number : Nat) :
    Routine f (f.callerLeaves number).fleet := by
  have herased : Routine f { f with callers := f.callers.erase number } := .of_eq rfl rfl rfl
  exact herased.trans (routine_releaseCorrelator _)

private theorem routine_callerLearns (f : Fleet) (number : Nat) (outcome : Outcome) :
    Routine f (f.callerLearns number outcome).fleet :=
  (f.routine_chronicled (.settled number outcome) trivial).trans
    (routine_callerLeaves _ number)

/-- The turn of a caller is routine. -/
theorem routine_callerTurn (f : Fleet) (number : Nat) :
    Routine f (f.callerTurn number).fleet := by
  unfold callerTurn
  split
  · exact .refl f
  · split
    · next request timeout _ =>
      have hsend := f.routine_send request timeout
      generalize f.send request timeout = r at hsend ⊢
      obtain ⟨result, g⟩ := r
      cases result with
      | error fault => exact hsend.trans (g.routine_callerLearns number _)
      | ok handle => exact hsend.trans (.of_eq rfl rfl rfl)
    · split
      · exact f.routine_callerLearns number _
      · exact .refl f
    · exact f.routine_callerLeaves number

private theorem routine_call (f : Fleet) (number : Nat) (request : Request) (timeout : Nat) :
    Routine f (f.call number request timeout).2 := by
  have hsend := f.routine_send request timeout
  unfold call
  generalize f.send request timeout = r at hsend ⊢
  obtain ⟨result, g⟩ := r
  cases result with
  | error fault => exact hsend
  | ok handle => exact hsend.trans (.of_eq rfl rfl rfl)

private theorem routine_hangUp (f : Fleet) (number : Nat) : Routine f (f.hangUp number) := by
  unfold hangUp
  split
  · exact .of_eq rfl rfl rfl
  · exact .refl f

/-- The turn of the reader is routine. -/
theorem routine_readerTurn (f : Fleet) : Routine f f.readerTurn.fleet := by
  rw [readerTurn_eq]
  refine ⟨.of_store_eq rfl rfl fun e he => ?_, .refl _⟩
  obtain ⟨n, -, rfl⟩ := List.mem_map.1 he
  trivial

/-- The broker's next message answers a request that waits for it. -/
structure Replies (key : CorrelationKey) (p : Pending) (m : Message) (f g : Fleet) : Prop where
  turn : g = f.deliveryTurn.fleet
  next : f.broker.inbox.head? = some m
  key_eq : m.correlationId = key
  waits : f.correlator.pending.get? key = some p
  topic : m.topic = p.replyTopic
  unsettled : f.correlator.outcome? key = none
  answered : g.correlator.outcome? key = some (.ok (m.response f.now))

/-- A listener is handed a message: nothing is written, and the requests are offered the message at
most. -/
theorem filed_handTo (f : Fleet) (m : Message) (s : Subscription Listener) :
    Filed f (f.handTo m s) ∧ (f.handTo m s).now = f.now ∧
      Correlator.Offered m f.now f.correlator (f.handTo m s).correlator := by
  unfold handTo
  split
  · next name _ =>
    exact ⟨f.filed_chronicled (.delivered s.id name m) trivial, rfl, .refl ..⟩
  · exact ⟨.of_eq rfl rfl, rfl, .refl ..⟩
  · unfold onMessage
    split
    · obtain ⟨agenda, hset⟩ := f.setCorrelator_eq (f.correlator.onMessage f.now m)
      rw [hset]
      exact ⟨.of_eq rfl rfl, rfl, f.correlator.offered_onMessage f.now m⟩
    · exact ⟨.refl f, rfl, .refl ..⟩

/-- Handing a message to its recipients writes nothing, and offers it to the request under its
key. -/
theorem filed_handToAll (f : Fleet) (m : Message) (subscriptions : List (Subscription Listener)) :
    Filed f (subscriptions.foldl (fun f s => f.handTo m s) f) ∧
      Correlator.Offered m f.now f.correlator
        (subscriptions.foldl (fun f s => f.handTo m s) f).correlator := by
  induction subscriptions generalizing f with
  | nil => exact ⟨.refl f, .refl ..⟩
  | cons s subscriptions ih =>
    obtain ⟨hfiled, hnow, hoffered⟩ := f.filed_handTo m s
    obtain ⟨hrest, hrestOffered⟩ := ih (f.handTo m s)
    rw [hnow] at hrestOffered
    exact ⟨hfiled.trans hrest, hoffered.trans hrestOffered⟩

/-- A delivery writes nothing. -/
theorem filed_deliveryTurn (f : Fleet) : Filed f f.deliveryTurn.fleet := by
  unfold deliveryTurn
  split
  · exact .of_eq rfl rfl
  · next m subscriptions broker _ =>
    have hall := (filed_handToAll { f with broker } m subscriptions).1
    exact { hall with }

/-- The requests are offered the broker's next message, if there is one. -/
theorem offered_deliveryTurn (f : Fleet) :
    f.deliveryTurn.fleet.correlator = f.correlator ∨ ∃ m, f.broker.inbox.head? = some m ∧
      Correlator.Offered m f.now f.correlator f.deliveryTurn.fleet.correlator := by
  unfold deliveryTurn
  split
  · exact Or.inl rfl
  · next m subscriptions broker hdeliver =>
    obtain ⟨rest, hinbox, -, -⟩ := Broker.inbox_of_wake hdeliver
    refine Or.inr ⟨m, by rw [hinbox, List.head?_cons], ?_⟩
    exact (filed_handToAll { f with broker } m subscriptions).2

/-- Whatever is answered in a delivery waited for the message. -/
theorem replies_of_deliveryTurn {key : CorrelationKey} {r : Response}
    (h : f.deliveryTurn.fleet.correlator.outcome? key = some (.ok r)) :
    f.correlator.outcome? key = some (.ok r) ∨
      ∃ p m, Replies key p m f f.deliveryTurn.fleet ∧ r = m.response f.now := by
  rcases f.offered_deliveryTurn with hsame | ⟨m, hnext, hoffered⟩
  · exact Or.inl (hsame ▸ h)
  · rcases hoffered.answered h with hold | ⟨hnone, hkey, rfl, p, hp, htopic⟩
    · exact Or.inl hold
    · exact Or.inr ⟨p, m, ⟨rfl, hnext, hkey, hp, htopic, hnone, h⟩, rfl⟩

/-- No program answers a request. -/
theorem unanswered_run {α : Type} (id : JobId) (target : String) (program : Program Stepping α)
    (f : Fleet) : Unanswered f.correlator (f.run id target program).2.correlator := by
  refine run_induct (P := fun g => Unanswered f.correlator g.correlator)
    ?_ ?_ ?_ ?_ target program (.refl _)
  · exact fun g q hg => (g.correlator_answerStore q).symm ▸ hg
  · exact fun g request timeout _ hg => hg.trans (g.routine_send request timeout).requests
  · exact fun g hg => hg.trans (g.routine_stop id).requests
  · exact fun _ _ hg => hg

/-- A worker that runs no program writes nothing but the record of its job. -/
theorem Works.routine_of_idle {work : Work} (h : f.Works id e work g) (hidle : work.Idle) :
    Routine f g := by
  cases h with
  | change e' agenda permits => exact .of_eq rfl rfl rfl
  | refused fault m agenda hstore _ => exact .of_eq hstore rfl rfl
  | @taken job cancels next tx m agenda hstore _ =>
    refine ⟨filed_recorded hstore rfl, ?_⟩
    cases cancels with
    | false => exact .refl _
    | true => exact f.correlator.unanswered_cancelOwnedBy id
  | performed => exact hidle.elim

/-- A turn in which a program runs comes to what the program comes to, but for the agenda and the
jobs. -/
theorem workerTurn_perform {run : StepRun} {program : Program Stepping (Except Fault Unit)}
    (he : f.jobs.get? id = some e) (hid : e.job.id = id)
    (hwork : e.work f id = .perform run program) :
    ∃ agenda jobs, (f.workerTurn id).fleet =
      { (f.run id e.job.target program).2 with agenda, jobs } := by
  have hworks := workerTurn_works he hid
  rw [hwork] at hworks
  generalize (f.workerTurn id).fleet = g at hworks
  cases hworks with
  | @performed _ _ result g e' before agenda hrun _ =>
    obtain ⟨after, hsame⟩ := run_agenda id e.job.target program f before
    cases hsame.symm.trans hrun
    exact ⟨agenda, _, rfl⟩

/-- No worker answers a request. -/
theorem unanswered_workerTurn (hf : f.Rooted) (id : JobId) :
    Unanswered f.correlator (f.workerTurn id).fleet.correlator := by
  cases he : f.jobs.get? id with
  | none => rw [workerTurn_of_none he]; exact .refl _
  | some e =>
    have hid := hf.ids id e he
    cases hwork : e.work f id with
    | change | record =>
      exact ((workerTurn_works he hid).routine_of_idle (by rw [hwork]; trivial)).requests
    | perform run program =>
      obtain ⟨agenda, jobs, hturn⟩ := workerTurn_perform he hid hwork
      rw [hturn]
      exact unanswered_run id e.job.target program f

/-- A step in which something else is written than job records, or in which a request is answered,
is a delivery, the turn of a worker, or a write from outside. -/
theorem Step.routine_or {may : String → Prop} (h : Step may f g) :
    Routine f g ∨ g = f.deliveryTurn.fleet ∨ (∃ id, g = (f.workerTurn id).fleet) ∨
      ∃ writes reads, g = (f.writeBehind writes reads).2 := by
  cases h with
  | turn task =>
    cases task with
    | delivery => exact Or.inr (Or.inl rfl)
    | supervisor => exact Or.inl f.routine_supervisorTurn
    | watcher => exact Or.inl f.routine_watcherTurn
    | reader => exact Or.inl f.routine_readerTurn
    | responder index => exact Or.inl (f.routine_responderTurn index)
    | caller number => exact Or.inl (f.routine_callerTurn number)
    | worker job => exact Or.inr (Or.inr (Or.inl ⟨job, rfl⟩))
  | write writes reads _ => exact Or.inr (Or.inr (Or.inr ⟨writes, reads, rfl⟩))
  | submit target steps => exact Or.inl (f.routine_submit target steps)
  | stop job => exact Or.inl (f.routine_stop job)
  | read key => exact Or.inl (.of_eq (f.transactions.store.store_read key) rfl rfl)
  | scan start => exact Or.inl (.of_eq (f.transactions.store.store_scan start) rfl rfl)
  | publish m => exact Or.inl (f.routine_publish m)
  | cancel key => exact Or.inl (f.routine_setCorrelator (f.correlator.unanswered_cancel key))
  | cancelOwnedBy job =>
    exact Or.inl (f.routine_setCorrelator (f.correlator.unanswered_cancelOwnedBy job))
  | closeRequests => exact Or.inl (f.routine_setCorrelator f.correlator.unanswered_close)
  | call number request timeout _ => exact Or.inl (f.routine_call number request timeout)
  | hangUp number => exact Or.inl (f.routine_hangUp number)
  | letGo =>
    have hheld : Routine f { f with held := false } := .of_eq rfl rfl rfl
    exact Or.inl (hheld.trans (routine_releaseCorrelator _))
  | reschedule | pass | disturb | connect | equip | callLater => exact Or.inl (.of_eq rfl rfl rfl)

/-- A step is routine, unless it is a delivery, the turn of a worker, or a write from outside. -/
theorem Loose.routine_or (h : Loose f g) :
    Routine f g ∨ g = f.deliveryTurn.fleet ∨ (∃ id, g = (f.workerTurn id).fleet) ∨
      ∃ writes reads, g = (f.writeBehind writes reads).2 := by
  cases h with
  | step h => exact h.routine_or
  | fine h =>
    cases h with
    | step h => exact h.routine_or
    | claim | raise => exact Or.inl (.of_eq rfl rfl rfl)

end Fleet

end Flotilla
