import Flotilla.Proofs.Channels.Broker
import Flotilla.Proofs.Requests.Keys
import Flotilla.Proofs.Rollout.Errands
import Flotilla.Proofs.Topics

/-!
# A device that only one job has to do with

A fleet has a single device, and nobody but one job sends anything to it: jobs come and go and are
stopped, messages are published and records are read and written, all for other targets
(`Fleet.Sheltered`). Whatever happens then, the channel, the requests and the store stay in order
(`Fleet.Scene`), and it either passes the device and its job by (`Fleet.PassesBy`) or is a turn of
the job's worker, a turn of the device, or the delivery of a message between the two
(`Fleet.Sheltered.cases`).
-/

namespace Flotilla

namespace Device

/-- A message is a command to the device, or comes in where its replies do. -/
def concerns (d : Device) (m : Message) : Bool :=
  Topic.covers d.commandPattern m.topic || decide (m.topic = d.replyTopic)

/-- A device that can be addressed and that carries out what it is told. -/
structure Willing (d : Device) (config : Config) : Prop where
  root : d.root = config.root
  addresses : Topic.Addresses d.root d.id
  silent : d.silent = false
  failingDeploys : d.failingDeploys = 0

/-- No command to the target reaches the device. -/
def Elsewhere (d : Device) (target : String) : Prop :=
  ∀ command, Topic.covers d.commandPattern (Topic.command d.root target command) = false

variable {d : Device} {config : Config} {target : String}

/-- The commands to other names do not reach the device. -/
theorem Willing.elsewhere (h : d.Willing config) (hslash : '/' ∉ target.toList)
    (hne : target ≠ d.id) : d.Elsewhere target :=
  h.addresses.not_covers_anyCommand_of_ne hslash hne

private theorem Willing.ne_of_elsewhere (h : d.Willing config) (htarget : d.Elsewhere target) :
    target ≠ d.id := by
  rintro rfl
  cases (h.addresses.covers_anyCommand "deploy").symm.trans (htarget "deploy")

/-- A command to the device concerns it. -/
theorem Willing.concerns_command (h : d.Willing config) (command : String) {m : Message}
    (hm : m.topic = config.commandTopic d.id command) : d.concerns m = true := by
  rw [concerns, hm, Config.commandTopic, ← h.root]
  exact Bool.or_eq_true_iff.2 (Or.inl (h.addresses.covers_anyCommand command))

/-- A command to somebody else does not concern the device. -/
theorem Willing.not_concerns_command (h : d.Willing config) (htarget : d.Elsewhere target)
    (command : String) {m : Message} (hm : m.topic = config.commandTopic target command) :
    d.concerns m = false := by
  rw [concerns, hm, Config.commandTopic, ← h.root, htarget command, Bool.false_or]
  exact decide_eq_false (h.addresses.command_ne_reply target command)

/-- A reply of the device concerns it. -/
theorem concerns_reply {m : Message} (hm : m.topic = d.replyTopic) : d.concerns m = true := by
  rw [concerns, decide_eq_true hm, Bool.or_true]

/-- Who has another reply topic does not reply for the device. -/
theorem Willing.replyTopic_eq (h : d.Willing config) : d.replyTopic = config.replyTopic d.id := by
  rw [replyTopic, h.root]
  rfl

end Device

namespace Fleet

open Rollout

/-- The messages on their way that the device has to do with. -/
def mailFor (f : Fleet) (d : Device) : List Message := f.broker.inbox.filter d.concerns

/-- The time of no request to the device is over. -/
def InTime (d : Device) (f : Fleet) : Prop :=
  ∀ key request deadline, f.correlator.pending.get? key = some request → request.target = d.id →
    f.correlator.supervisor.queue.deadline? key = some deadline → f.now < deadline

/-- A fleet at its start that one device is attached to. -/
def attached (config : Config) (store : UnreliableStore) (registry : Registry) (d : Device) :
    Fleet :=
  ((opened config store registry).attach d).2

/-- A step in which nobody but tasks of the fleet has anything to do with the device: what is asked
of the fleet is for other targets. The store takes commits, and when the deadlines are looked at, no
request to the device is over its time. -/
inductive Sheltered (d : Device) (f : Fleet) : Fleet → Prop
  | turn (task : Task) (h : task = .supervisor → f.InTime d) : Sheltered d f (f.turn task).fleet
  | reschedule (agenda : Agenda) : Sheltered d f { f with agenda }
  | pass (time : Nat) (h : f.now ≤ time) : Sheltered d f { f with now := time }
  | disturb (outages : List Outage) (h : ∀ o ∈ outages, o.call ≠ .commit) : Sheltered d f { f with
      transactions := { f.transactions with store := { f.transactions.store with outages } } }
  | submit (target : String) (steps : List JobStep) (htarget : d.Elsewhere target)
    (hsteps : ∀ s ∈ steps, s.Untouched) : Sheltered d f (f.submit target steps).2
  | stop (job : JobId) (h : ∀ e, f.jobs.get? job = some e → d.Elsewhere e.job.target) :
    Sheltered d f (f.stop job).2
  | read (key : String) : Sheltered d f (f.read key).2
  | scan (start : String) : Sheltered d f (f.scan start).2
  | write (writes : List Write) (reads : Table String (Option Nat))
    (h : ∀ w ∈ writes, ¬IsJobKey w.key ∧ w.key ≠ versionKey d.id) :
    Sheltered d f (f.writeBehind writes reads).2
  | publish (m : Message) (h : d.concerns m = false) : Sheltered d f (f.publish m).2

/-- A row of such steps. -/
abbrev ShelteredRun (d : Device) : Fleet → Fleet → Prop := Relation.ReflTransGen (Sheltered d)

variable {d : Device} {config : Config} {own : Option JobId} {f g h : Fleet}

/-- A sheltered step is a step. -/
theorem Sheltered.step {may : String → Prop} (hmay : ∀ key, ¬IsJobKey key → may key)
    (hstep : Sheltered d f g) : Step may f g := by
  cases hstep with
  | turn task => exact .turn task
  | reschedule agenda => exact .reschedule agenda
  | pass time => exact .pass time
  | disturb outages => exact .disturb outages
  | submit target steps => exact .submit target steps
  | stop job => exact .stop job
  | read key => exact .read key
  | scan start => exact .scan start
  | write writes reads h => exact .write writes reads fun w hw => hmay _ (h w hw).1
  | publish m => exact .publish m

/-- A sheltered run is a run. -/
theorem ShelteredRun.run (hrun : ShelteredRun d f g) : Run (fun key => ¬IsJobKey key) f g :=
  Relation.ReflTransGen.mono (fun _ _ => Sheltered.step fun _ hkey => hkey) _ _ hrun

/-- The single device, the channel, the requests and the store are in order, and all jobs but one
are for other targets. -/
structure Scene (d : Device) (config : Config) (own : Option JobId) (f : Fleet) : Prop where
  settings : f.config = config
  registry : f.registry.All StepDefinition.Brief
  subscriptions : f.broker.subscriptions.entries =
    [⟨1, config.replyPattern, .correlator⟩, ⟨2, d.commandPattern, .device 0⟩]
  opened : f.broker.closed = false
  available : f.broker.available = true
  correlating : f.correlating = true
  callers : f.callers = ∅
  devices : ∃ version received, f.devices = [{ d with version, received }]
  terms : f.correlator.config = config
  requests : f.correlator.WellKeyed
  store : f.transactions.store.TakesCommits
  given : ∀ id, own = some id → id.toNat ≤ f.submitted
  ids : ∀ id e, f.jobs.get? id = some e → e.job.id = id
  briefs : ∀ id e, f.jobs.get? id = some e → e.Brief
  target : ∀ id e, f.jobs.get? id = some e → own = some id → e.job.target = d.id
  others : ∀ id e, f.jobs.get? id = some e → own ≠ some id → d.Elsewhere e.job.target

/-- What the device and its job have to do with each other stays as it is. -/
structure PassesBy (d : Device) (own : Option JobId) (f g : Fleet) : Prop where
  mail : g.mailFor d = f.mailFor d
  responders : g.responders = f.responders
  devices : g.devices = f.devices
  record : g.transactions.store.store.read (versionKey d.id) =
    f.transactions.store.store.read (versionKey d.id)
  pending : ∀ key request, f.correlator.pending.get? key = some request →
    request.target = d.id → request.owner = own → g.correlator.pending.get? key = some request
  outcome : ∀ key outcome, f.correlator.outcome? key = some outcome →
    g.correlator.outcome? key = some outcome

/-- Where nothing happens, everybody is passed by. -/
theorem PassesBy.refl (d : Device) (own : Option JobId) (f : Fleet) : PassesBy d own f f where
  mail := rfl
  responders := rfl
  devices := rfl
  record := rfl
  pending _ _ hp _ _ := hp
  outcome _ _ h := h

/-- Two steps that pass the device and the job by do so together. -/
theorem PassesBy.trans (hfg : PassesBy d own f g) (hgh : PassesBy d own g h) :
    PassesBy d own f h where
  mail := hgh.mail.trans hfg.mail
  responders := hgh.responders.trans hfg.responders
  devices := hgh.devices.trans hfg.devices
  record := hgh.record.trans hfg.record
  pending key request hp htarget howner :=
    hgh.pending key request (hfg.pending key request hp htarget howner) htarget howner
  outcome key outcome hout := hgh.outcome key outcome (hfg.outcome key outcome hout)

/-- A step after which the scene is in order and which has passed the device and its job by. -/
structure Spared (d : Device) (config : Config) (own : Option JobId) (f g : Fleet) : Prop where
  scene : Scene d config own g
  passesBy : PassesBy d own f g
  entry : ∀ id, own = some id → g.jobs.get? id = f.jobs.get? id

private theorem Scene.spared (hf : Scene d config own f) : Spared d config own f f :=
  ⟨hf, .refl d own f, fun _ _ => rfl⟩

/-- Two steps that spare the scene do so together. -/
theorem Spared.trans (hfg : Spared d config own f g) (hgh : Spared d config own g h) :
    Spared d config own f h :=
  ⟨hgh.scene, hfg.passesBy.trans hgh.passesBy,
    fun id hown => (hgh.entry id hown).trans (hfg.entry id hown)⟩

/-- Whatever is done to the requests while those to the device are left alone. -/
theorem Scene.requested (hf : Scene d config own f) {c : Correlator} (agenda : Agenda)
    (hconfig : c.config = f.correlator.config) (hc : c.WellKeyed)
    (hpending : ∀ key request, f.correlator.pending.get? key = some request →
      request.target = d.id → request.owner = own → c.pending.get? key = some request)
    (houtcome : ∀ key outcome, f.correlator.outcome? key = some outcome →
      c.outcome? key = some outcome) :
    Spared d config own f { f with correlator := c, agenda } where
  scene := { hf with terms := hconfig.trans hf.terms, requests := hc }
  passesBy := { PassesBy.refl d own f with pending := hpending, outcome := houtcome }
  entry _ _ := rfl

/-- Whatever is done to the store while the version of the device is left alone. -/
theorem Scene.stored (hf : Scene d config own f) {m : Transactions} (chronicle : Chronicle)
    (hm : m.store.TakesCommits) (hread : m.store.store.read (versionKey d.id) =
      f.transactions.store.store.read (versionKey d.id)) :
    Spared d config own f { f with chronicle, transactions := m } where
  scene := { hf with store := hm }
  passesBy := { PassesBy.refl d own f with record := hread }
  entry _ _ := rfl

/-- A message that does not concern the device. -/
theorem Scene.published (hf : Scene d config own f) (agenda : Agenda) (chronicle : Chronicle)
    {m : Message} (hm : d.concerns m = false) :
    Spared d config own f { f with
      agenda, chronicle, broker := { f.broker with inbox := f.broker.inbox ++ [m] } } where
  scene := { hf with }
  passesBy := { PassesBy.refl d own f with
    mail := by
      change (f.broker.inbox ++ [m]).filter d.concerns = f.broker.inbox.filter d.concerns
      rw [List.filter_append, List.filter_cons_of_neg (by rw [hm]; exact Bool.false_ne_true),
        List.filter_nil, List.append_nil] }
  entry _ _ := rfl

/-- Whatever becomes of a job, as long as it is still for the target that it has to be for. -/
theorem Scene.replaced (hf : Scene d config own f) (agenda : Agenda) (permits : Permits)
    {id : JobId} {e : JobEntry} (hjob : e.job.id = id) (hbrief : e.Brief)
    (htarget : own = some id → e.job.target = d.id)
    (helsewhere : own ≠ some id → d.Elsewhere e.job.target) :
    Scene d config own { f with agenda, permits, jobs := f.jobs.set id e } := by
  have hentry {P : JobId → JobEntry → Prop} (hnew : P id e)
      (hold : ∀ job e', f.jobs.get? job = some e' → P job e') (job : JobId) (e' : JobEntry)
      (he' : (f.jobs.set id e).get? job = some e') : P job e' := by
    rw [Table.get?_set] at he'
    split at he'
    · next heq =>
      cases he'
      exact heq ▸ hnew
    · exact hold job e' he'
  exact { hf with
    ids := hentry hjob hf.ids
    briefs := hentry (P := fun _ e => e.Brief) hbrief hf.briefs
    target := hentry (P := fun job e => own = some job → e.job.target = d.id) htarget hf.target
    others := hentry (P := fun job e => own ≠ some job → d.Elsewhere e.job.target) helsewhere
      hf.others }

/-- Whatever becomes of another job. -/
theorem Scene.sparing (hf : Scene d config own f) (agenda : Agenda) (permits : Permits)
    {id : JobId} (hown : own ≠ some id) {e : JobEntry} (hjob : e.job.id = id) (hbrief : e.Brief)
    (helsewhere : d.Elsewhere e.job.target) :
    Spared d config own f { f with agenda, permits, jobs := f.jobs.set id e } where
  scene := hf.replaced agenda permits hjob hbrief (fun heq => (hown heq).elim) fun _ => helsewhere
  passesBy := { PassesBy.refl d own f with }
  entry job hjob' := by
    refine Table.get?_set_ne _ _ ?_
    rintro rfl
    exact hown hjob'

/-- An open and available broker takes every message. -/
theorem publish_eq {α : Type} {b : Broker α} (hclosed : b.closed = false)
    (havailable : b.available = true) (m : Message) :
    b.publish m = .ok { b with inbox := b.inbox ++ [m] } := by
  rw [Broker.publish, hclosed, havailable]
  rfl

/-- A request is always sent, as long as keys last. -/
theorem Scene.send_eq (hf : Scene d config own f) (hsent : f.correlator.sent + 1 < 2 ^ 64)
    (request : Request) (timeout : Nat) :
    ∃ handle c agenda chronicle, f.send request timeout = (.ok handle, { f with
        agenda, chronicle, correlator := c
        broker := { f.broker with
          inbox := f.broker.inbox ++ [c.message handle.key request f.now] } }) ∧
      f.correlator.Entered handle request timeout c ∧ c.WellKeyed ∧
      c.outcome? handle.key = none := by
  obtain ⟨handle, c, henter, hentered, hkeyed, houtcome⟩ :=
    hf.requests.enter hsent f.now request timeout
  obtain ⟨agenda, hset⟩ := f.setCorrelator_eq c
  refine ⟨handle, c, (agenda.wake .supervisor).wake .delivery, f.chronicle ++
    [(f.now, .published (c.message handle.key request f.now))], ?_, hentered, hkeyed, houtcome⟩
  rw [send, Correlator.send_eq, henter]
  dsimp only
  rw [publish_eq hf.opened hf.available]
  dsimp only
  rw [hset]
  rfl

variable {id : JobId} {target : String}

/-- A request to another target passes by. -/
theorem Scene.sent (hf : Scene d config own f) (hd : d.Willing config)
    (hsent : f.correlator.sent + 1 < 2 ^ 64) (htarget : d.Elsewhere target) (command : String)
    (payload : Bytes) (owner : Option JobId) (timeout : Nat) :
    ∃ handle g, f.send ⟨target, command, payload, owner⟩ timeout = (.ok handle, g) ∧
      Spared d config own f g ∧ g.jobs = f.jobs ∧
      g.correlator.outcome? handle.key = none := by
  obtain ⟨handle, c, agenda, chronicle, hsend, hentered, hkeyed, houtcome⟩ :=
    hf.send_eq hsent ⟨target, command, payload, owner⟩ timeout
  have hrequested := hf.requested (c := c) f.agenda hentered.config hkeyed
    (fun key request hp _ _ => hentered.get?_pending_of_some hp)
    (fun key outcome hout => (hentered.outcome? key).trans hout)
  have htopic :
      d.concerns (c.message handle.key ⟨target, command, payload, owner⟩ f.now) = false := by
    refine hd.not_concerns_command htarget command ?_
    rw [← hf.terms, ← hentered.config]
    rfl
  exact ⟨handle, _, hsend, hrequested.trans (hrequested.scene.published agenda chronicle htopic),
    rfl, houtcome⟩

/-- Different devices have different keys for their versions. -/
theorem versionKey_injective {target target' : String}
    (heq : versionKey target = versionKey target') : target = target' := by
  have hchars := congrArg String.toList heq
  simp only [versionKey, String.toList_append, List.append_assoc,
    List.append_cancel_left_eq] at hchars
  exact String.toList_inj.1 (List.append_cancel_right_eq .. ▸ hchars)

/-- A program that begins with a request uses up a key. -/
theorem sent_of_request (f : Fleet) (id : JobId) (target command : String) (payload : Bytes)
    (timeout : Nat) (next : Outcome → Program Stepping (Except Fault Unit)) :
    f.correlator.sent + 1 ≤ (f.run id target
      ((Stepping.request command payload timeout).bind next)).2.correlator.sent := by
  have hcount : (f.send ⟨target, command, payload, some id⟩ timeout).2.correlator.sent =
      f.correlator.sent + 1 := by
    obtain ⟨agenda, broker, events, hsend, -⟩ :=
      f.send_eq ⟨target, command, payload, some id⟩ timeout
    rw [hsend]
    exact (f.correlator.given_send f.now f.broker.publish _ timeout).1
  rw [run_request]
  generalize f.send ⟨target, command, payload, some id⟩ timeout = r at hcount ⊢
  obtain ⟨result, g⟩ := r
  dsimp only at hcount
  cases result with
  | error fault => exact hcount ▸ (ran_run id target (next (.error fault)) g).requests.sent
  | ok handle => exact hcount ▸ (ran_run id target _ g).requests.sent

/-- What an attempt of another job does passes by. -/
theorem Scene.run (hf : Scene d config own f) (hd : d.Willing config)
    {program : Program Stepping (Except Fault Unit)}
    (hprogram : Brief target program ∨ Closing target program) (htarget : d.Elsewhere target)
    (hsent : (f.run id target program).2.correlator.sent < 2 ^ 64) :
    Spared d config own f (f.run id target program).2 ∧
      (f.run id target program).2.jobs = f.jobs := by
  have hclosing {program : Program Stepping (Except Fault Unit)}
      (hprogram : Closing target program) :
      Spared d config own f (f.run id target program).2 ∧
        (f.run id target program).2.jobs = f.jobs := by
    cases hprogram with
    | finished result => exact ⟨hf.spared, rfl⟩
    | keeps expected =>
      obtain ⟨tx, m, hrun, houtages, hstore⟩ := run_keepVersion hf.store id target expected
      rw [hrun]
      refine ⟨hf.stored _ (fun o ho => hf.store o (houtages ▸ ho)) ?_, rfl⟩
      rw [hstore]
      exact Store.read_apply_of_ne _ fun heq =>
        hd.ne_of_elsewhere htarget (versionKey_injective heq)
  rcases hprogram with hbrief | hover
  · cases hbrief with
    | finished result => exact ⟨hf.spared, rfl⟩
    | @asks command payload timeout next hnext =>
      have hroom :=
        Nat.lt_of_le_of_lt (sent_of_request f id target command payload timeout next) hsent
      obtain ⟨handle, g, hsend, hspared, hjobs, houtcome⟩ :=
        hf.sent hd hroom htarget command payload (some id) timeout
      rw [run_request, hsend]
      dsimp only
      rw [run_await, houtcome]
      exact ⟨hspared, hjobs⟩
  · exact hclosing hover

/-- Calling off the requests of another job passes by. -/
theorem Scene.calledOff (hf : Scene d config own f) (hown : own ≠ some id) :
    Spared d config own f { f with correlator := (f.correlator.cancelOwnedBy id).2 } := by
  have hserves : Correlator.Serves none f.correlator (f.correlator.cancelOwnedBy id).2 :=
    f.correlator.serves_cancelOwnedBy id
  refine hf.requested f.agenda hserves.config (hf.requests.cancelOwnedBy id)
    (fun key request hp _ howner => ?_) hserves.outcome
  exact Correlator.get?_pending_cancelOwnedBy_of_ne hp fun heq => hown (howner ▸ heq)

/-- A turn of a worker in which it runs no program passes by, unless it calls off the requests of
the device's job. -/
theorem Scene.idleTurn (hf : Scene d config own f) {e : JobEntry} (he : f.jobs.get? id = some e)
    (hidle : (e.work f id).Idle)
    (hcancels : ∀ job next, e.work f id = .record job true next → own ≠ some id) :
    Scene d config own (f.workerTurn id).fleet ∧ PassesBy d own f (f.workerTurn id).fleet := by
  have hid := hf.ids id e he
  have hworks := workerTurn_works he hid
  obtain ⟨e', he', hbrings⟩ := hworks.brings he
  have hreplaced {g : Fleet} (hg : Scene d config own g) (agenda : Agenda) (permits : Permits) :
      Scene d config own { g with agenda, permits, jobs := g.jobs.set id e' } := by
    refine hg.replaced agenda permits ((JobEntry.leaves_of_brings hbrings).id_eq.trans hid)
      ((hf.briefs id e he).brings hf.registry hbrings) (fun hown => ?_) fun hown => ?_
    · exact (JobEntry.target_of_brings hbrings).trans (hf.target id e he hown)
    · rw [JobEntry.target_of_brings hbrings]
      exact hf.others id e he hown
  generalize e.work f id = work at hworks hidle hcancels
  generalize (f.workerTurn id).fleet = g at hworks he' ⊢
  cases hworks with
  | change e₁ agenda permits =>
    obtain rfl := Option.some.inj ((Table.get?_set_self ..).symm.trans he')
    exact ⟨hreplaced hf agenda permits, { PassesBy.refl d own f with }⟩
  | @refused job cancels next fault m agenda _ hpersist =>
    obtain ⟨tx, m', htaken, -⟩ := persist_taken hf.store job
    cases congrArg Prod.fst (hpersist.symm.trans htaken)
  | @taken job cancels next tx m agenda hstore hpersist =>
    obtain rfl := Option.some.inj ((Table.get?_set_self ..).symm.trans he')
    obtain ⟨tx', m', htaken, houtages, -⟩ := persist_taken hf.store job
    have hm : m = m' :=
      congrArg (fun r => r.2.2.transactions) (hpersist.symm.trans htaken)
    have hsettled : Spared d config own f { f with correlator := f.settling id cancels } := by
      cases cancels with
      | false => exact hf.spared
      | true => exact hf.calledOff (hcancels job next rfl)
    have hstored := hsettled.scene.stored (m := m)
      (f.recorded tx (f.stamped job)).chronicle
      (fun o ho => hf.store o (houtages ▸ hm ▸ ho)) (by
        rw [hstore]
        exact Store.read_apply_of_ne _ fun heq =>
          not_isJobKey_versionKey d.id (heq ▸ isJobKey_key _))
    exact ⟨{ hreplaced hstored.scene agenda f.permits with },
      { (hsettled.trans hstored).passesBy with }⟩
  | performed => exact hidle.elim

/-- A turn of the worker of another job passes by. -/
theorem Scene.workerTurn (hf : Scene d config own f) (hd : d.Willing config) (hown : own ≠ some id)
    (hsent : (f.workerTurn id).fleet.correlator.sent < 2 ^ 64) :
    Spared d config own f (f.workerTurn id).fleet := by
  cases he : f.jobs.get? id with
  | none =>
    rw [workerTurn_of_none he]
    exact hf.spared
  | some e =>
    have hid := hf.ids id e he
    have hworks := workerTurn_works he hid
    by_cases hidle : (e.work f id).Idle
    · obtain ⟨hscene, hpasses⟩ := hf.idleTurn he hidle fun _ _ _ => hown
      refine ⟨hscene, hpasses, fun job hjob => hworks.workerFrame.others job ?_⟩
      rintro rfl
      exact hown hjob
    · have htarget := hf.others id e he hown
      obtain ⟨e', he', hbrings⟩ := hworks.brings he
      have hid' : e'.job.id = id := (JobEntry.leaves_of_brings hbrings).id_eq.trans hid
      have hbrief' := (hf.briefs id e he).brings hf.registry hbrings
      have htarget' : d.Elsewhere e'.job.target := by
        rw [JobEntry.target_of_brings hbrings]
        exact htarget
      have hwork (run : StepRun) (program : Program Stepping (Except Fault Unit))
          (hperform : e.work f id = .perform run program) :=
        (hf.briefs id e he).perform hperform
      generalize e.work f id = work at hworks hwork hidle
      generalize (f.workerTurn id).fleet = g at hsent hworks he' ⊢
      cases hworks with
      | change | refused | taken => exact (hidle trivial).elim
      | @performed run program result g e₁ before agenda hrun hentry =>
        obtain rfl := Option.some.inj ((Table.get?_set_self ..).symm.trans he')
        have hbefore : Scene d config own { f with agenda := before } := { hf with }
        obtain ⟨hspared, -⟩ := hbefore.run hd (hwork run program rfl) htarget (by
          rw [hrun]
          exact hsent)
        rw [hrun] at hspared
        have hg := hspared.scene.sparing agenda g.permits hown hid' hbrief' htarget'
        exact ⟨hg.scene, { hspared.passesBy.trans hg.passesBy with },
          fun job hjob => (hg.entry job hjob).trans (hspared.entry job hjob)⟩

/-- Who is handed a message. -/
theorem Scene.matching (hf : Scene d config own f) (topic : String) :
    f.broker.subscriptions.matching topic =
      (if Topic.covers config.replyPattern topic then
        [⟨1, config.replyPattern, .correlator⟩] else []) ++
      if Topic.covers d.commandPattern topic then [⟨2, d.commandPattern, .device 0⟩] else [] := by
  rw [Subscriptions.matching, hf.subscriptions, List.filter_cons, List.filter_cons, List.filter_nil]
  dsimp only
  split <;> rfl

/-- A delivery of an open broker hands out the oldest message that waits. -/
theorem fleet_deliveryTurn (hopened : f.broker.closed = false) {m : Message} {rest : List Message}
    (hinbox : f.broker.inbox = m :: rest) :
    f.deliveryTurn.fleet = (f.broker.subscriptions.matching m.topic).foldl (fun f s => f.handTo m s)
      { f with broker := { f.broker with inbox := rest, delivering := true } } := by
  rw [deliveryTurn, Broker.deliver?_wake hopened hinbox]
  rfl

/-- A delivery that finds nothing yields. -/
theorem fleet_deliveryTurn_of_nil (hopened : f.broker.closed = false)
    (hinbox : f.broker.inbox = []) :
    f.deliveryTurn.fleet = { f with broker := { f.broker with delivering := false } } := by
  rw [deliveryTurn, Broker.deliver?_wake_of_nil hinbox, Broker.rest_of_open hopened]
  rfl

/-- Taking in a message as a reply. -/
theorem Scene.onMessage_eq (hf : Scene d config own f) (m : Message) :
    ∃ agenda, f.onMessage m = { f with correlator := f.correlator.onMessage f.now m, agenda } := by
  rw [onMessage, if_pos hf.correlating]
  exact f.setCorrelator_eq _

/-- A message is taken from the channel. -/
theorem Scene.taken (hf : Scene d config own f) (rest : List Message) (delivering : Bool) :
    Scene d config own { f with broker := { f.broker with inbox := rest, delivering } } :=
  { hf with }

/-- The delivery of a message that does not concern the device passes by. -/
theorem Scene.deliveryTurn (hf : Scene d config own f) (hd : d.Willing config)
    (hmail : ∀ m rest, f.broker.inbox = m :: rest → d.concerns m = false) :
    Spared d config own f f.deliveryTurn.fleet := by
  cases hinbox : f.broker.inbox with
  | nil =>
    rw [fleet_deliveryTurn_of_nil hf.opened hinbox]
    exact ⟨{ hf with }, { PassesBy.refl d own f with }, fun _ _ => rfl⟩
  | cons m rest =>
    have hm := hmail m rest hinbox
    obtain ⟨hcommand, hreply⟩ := Bool.or_eq_false_iff.1 hm
    let g : Fleet := { f with broker := { f.broker with inbox := rest, delivering := true } }
    have hg : Spared d config own f g := by
      refine ⟨hf.taken rest true, { PassesBy.refl d own f with mail := ?_ }, fun _ _ => rfl⟩
      change rest.filter d.concerns = f.broker.inbox.filter d.concerns
      rw [hinbox, List.filter_cons_of_neg (by rw [hm]; exact Bool.false_ne_true)]
    rw [fleet_deliveryTurn hf.opened hinbox, hf.matching, hcommand, if_neg Bool.false_ne_true,
      List.append_nil]
    split
    · obtain ⟨agenda, hon⟩ := hg.scene.onMessage_eq m
      have hserves : Correlator.Serves none g.correlator (g.correlator.onMessage g.now m) :=
        g.correlator.serves_onMessage g.now m
      refine hg.trans ?_
      change Spared d config own g (g.onMessage m)
      rw [hon]
      refine hg.scene.requested agenda hserves.config (hg.scene.requests.onMessage g.now m) ?_
        hserves.outcome
      intro key request hp htarget _
      refine hg.scene.requests.get?_pending_onMessage g.now hp ?_
      rw [hg.scene.terms, htarget, ← hd.replyTopic_eq]
      exact of_decide_eq_false hreply
    · exact hg

/-- While no request to the device is late, a turn of the supervisor passes by. -/
theorem Scene.supervisorTurn (hf : Scene d config own f) (htime : f.InTime d) :
    Spared d config own f f.supervisorTurn.fleet := by
  have hserves : Correlator.Serves none f.correlator (f.correlator.pollDeadlines f.now) :=
    f.correlator.serves_pollDeadlines f.now
  have hpolled (agenda : Agenda) := hf.requested (c := f.correlator.pollDeadlines f.now) agenda
    hserves.config (hf.requests.pollDeadlines f.now)
    (fun key request hp htarget _ => hf.requests.get?_pending_pollDeadlines hp
      fun deadline hdeadline => htime key request deadline hp htarget hdeadline) hserves.outcome
  obtain ⟨agenda, hset⟩ := f.setCorrelator_eq (f.correlator.pollDeadlines f.now)
  rw [Fleet.supervisorTurn, if_pos hf.correlating, hset]
  dsimp only
  split
  · exact hpolled (agenda.rearm .supervisor _)
  · exact hpolled (agenda.disarm .supervisor)

/-- A device that has dealt with a command has nothing to do any more. -/
theorem responderTurn_of_gone {index : Nat}
    (hgone : ∀ r, f.responders[index]? = some r → r.stage = .gone) :
    (f.responderTurn index).fleet = f := by
  unfold responderTurn
  split
  · rfl
  · next r hr =>
    split
    · rfl
    · rw [hgone r hr]
      rfl

/-- A submit for somebody else spares the scene. -/
theorem Scene.submit (hf : Scene d config own f) (htarget : d.Elsewhere target)
    (steps : List JobStep) (hlt : f.submitted + 1 < 2 ^ 64) :
    Spared d config own f (f.submit target steps).2 := by
  obtain ⟨job, tx, m, agenda, hjob, hsubmit, houtages, hstore⟩ :=
    submit_taken hf.store target steps
  have hown : own ≠ some f.nextId := fun hown => nextId_ne (hf.given _ hown) hlt rfl
  have hnew : (JobEntry.new job).job.id = f.nextId := by
    rw [hjob]
    rfl
  have hnewTarget : d.Elsewhere (JobEntry.new job).job.target := by
    rw [hjob]
    exact htarget
  have hstored := hf.stored (m := m) (f.recorded tx job).chronicle
    (fun o ho => hf.store o (houtages ▸ ho)) (by
      rw [hstore]
      exact Store.read_apply_of_ne _ fun heq =>
        not_isJobKey_versionKey d.id (heq ▸ isJobKey_key _))
  have hg := hstored.trans
    (hstored.scene.sparing agenda f.permits hown hnew (JobEntry.brief_new job) hnewTarget)
  rw [hsubmit]
  exact ⟨{ hg.scene with given := fun id hid => Nat.le_succ_of_le (hf.given id hid) },
    { hg.passesBy with }, hg.entry⟩

/-- Asking somebody else's job to stop spares the scene. -/
theorem Scene.stop (hf : Scene d config own f) (hd : d.Willing config)
    (htarget : ∀ e, f.jobs.get? id = some e → d.Elsewhere e.job.target) :
    Spared d config own f (f.stop id).2 := by
  have hcommits := takesCommits_stop hf.store id
  rcases f.stop_cases id with ⟨fault, m, hstop, hm⟩ | ⟨e, -, -, hstop⟩ |
    ⟨e, agenda, htracked, hphase, hstop⟩ <;> rw [hstop] at hcommits ⊢
  · exact hf.stored f.chronicle hcommits (by rw [hm])
  · exact hf.spared
  · have he := (get?_of_tracked? htracked).1
    have helsewhere := htarget e he
    have hown : own ≠ some id := fun hown =>
      hd.ne_of_elsewhere helsewhere (hf.target id e he hown)
    exact hf.sparing agenda f.permits hown (hf.ids id e he)
      ((hf.briefs id e he).same (JobEntry.MayBeAsked.same (Or.inr ⟨hphase, rfl⟩))) helsewhere

/-- A write to other keys spares the scene. -/
theorem Scene.writeBehind (hf : Scene d config own f) {writes : List Write}
    (reads : Table String (Option Nat)) (hwrites : ∀ w ∈ writes, w.key ≠ versionKey d.id) :
    Spared d config own f (f.writeBehind writes reads).2 := by
  refine hf.stored f.chronicle (hf.store.commitBehind writes reads) ?_
  exact (f.transactions.store.commitBehind_of_ne reads hwrites).1

/-- What a step in the shelter is: it passes the device and its job by, or it is a turn of the job's
worker, a turn of the device, or the delivery of a message that concerns the device. -/
theorem Sheltered.cases (hstep : Sheltered d f g) (hf : Scene d config own f)
    (hd : d.Willing config) (hsent : g.correlator.sent < 2 ^ 64) (hlt : g.submitted < 2 ^ 64) :
    Spared d config own f g ∨
    (∃ id, own = some id ∧ g = (f.workerTurn id).fleet) ∨
    (∃ m rest, f.broker.inbox = m :: rest ∧ d.concerns m = true ∧ g = f.deliveryTurn.fleet) ∨
    ∃ index r, f.responders[index]? = some r ∧ r.stage ≠ .gone ∧
      g = (f.responderTurn index).fleet := by
  cases hstep with
  | turn task htime =>
    cases task with
    | delivery =>
      by_cases hmail : ∀ m rest, f.broker.inbox = m :: rest → d.concerns m = false
      · exact Or.inl (hf.deliveryTurn hd hmail)
      · simp only [not_forall, Bool.not_eq_false] at hmail
        obtain ⟨m, rest, hinbox, hm⟩ := hmail
        exact Or.inr (Or.inr (Or.inl ⟨m, rest, hinbox, hm, rfl⟩))
    | supervisor => exact Or.inl (hf.supervisorTurn (htime rfl))
    | watcher =>
      left
      rw [Fleet.turn, watcherTurn, if_neg (by rw [hf.opened]; exact Bool.false_ne_true)]
      exact hf.spared
    | reader =>
      left
      rw [Fleet.turn, readerTurn_eq]
      exact ⟨{ hf with }, { PassesBy.refl d own f with }, fun _ _ => rfl⟩
    | responder index =>
      by_cases hgone : ∀ r, f.responders[index]? = some r → r.stage = .gone
      · left
        rw [Fleet.turn, responderTurn_of_gone hgone]
        exact hf.spared
      · simp only [not_forall] at hgone
        obtain ⟨r, hr, hlive⟩ := hgone
        exact Or.inr (Or.inr (Or.inr ⟨index, r, hr, hlive, rfl⟩))
    | caller number =>
      left
      rw [Fleet.turn, callerTurn, hf.callers]
      exact hf.spared
    | worker id =>
      by_cases hown : own = some id
      · exact Or.inr (Or.inl ⟨id, hown, rfl⟩)
      · exact Or.inl (hf.workerTurn hd hown hsent)
  | reschedule agenda => exact Or.inl ⟨{ hf with }, { PassesBy.refl d own f with }, fun _ _ => rfl⟩
  | pass time h => exact Or.inl ⟨{ hf with }, { PassesBy.refl d own f with }, fun _ _ => rfl⟩
  | disturb outages h =>
    exact Or.inl ⟨{ hf with store := h }, { PassesBy.refl d own f with }, fun _ _ => rfl⟩
  | submit target steps htarget hsteps =>
    refine Or.inl (hf.submit htarget steps ?_)
    obtain ⟨job, tx, m, agenda, -, hsubmit, -⟩ := submit_taken hf.store target steps
    rw [hsubmit] at hlt
    exact hlt
  | stop job h => exact Or.inl (hf.stop hd h)
  | read key =>
    exact Or.inl (hf.stored f.chronicle (hf.store.read key)
      (congrArg (Store.read · _) (f.transactions.store.store_read key)))
  | scan start =>
    exact Or.inl (hf.stored f.chronicle (hf.store.scan start)
      (congrArg (Store.read · _) (f.transactions.store.store_scan start)))
  | write writes reads h => exact Or.inl (hf.writeBehind reads fun w hw => (h w hw).2)
  | publish m h =>
    left
    rw [Fleet.publish, publish_eq hf.opened hf.available]
    exact hf.published (f.agenda.wake .delivery) _ h

/-- With a device attached there are still no jobs. -/
theorem get?_attached (config : Config) (store : UnreliableStore) (registry : Registry) (d : Device)
    (id : JobId) : (attached config store registry d).jobs.get? id = none :=
  get?_opened config store registry id

/-- Everything is in order at the start. -/
theorem scene_attached (config : Config) {store : UnreliableStore} {registry : Registry}
    (d : Device) (hstore : store.TakesCommits) (hregistry : registry.All StepDefinition.Brief) :
    Scene d config none (attached config store registry d) := by
  have hnone {id : JobId} {e : JobEntry} {P : Prop}
      (he : (attached config store registry d).jobs.get? id = some e) : P := by
    cases (get?_attached config store registry d id).symm.trans he
  exact {
    settings := rfl
    registry := hregistry
    subscriptions := rfl
    opened := rfl
    available := rfl
    correlating := rfl
    callers := rfl
    devices := ⟨d.version, d.received, rfl⟩
    terms := rfl
    requests := Correlator.wellKeyed_new config 0
    store := hstore
    given := nofun
    ids := fun _ _ he => hnone he
    briefs := fun _ _ he => hnone he
    target := fun _ _ he => hnone he
    others := fun _ _ he => hnone he }

end Fleet

end Flotilla
