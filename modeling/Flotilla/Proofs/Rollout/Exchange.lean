import Flotilla.Proofs.Rollout.Shelter

/-!
# A command and its reply

What is under way between a job and its device is a command that has been sent, one that the device
deals with, its reply, or the outcome (`Fleet.Underway`). The deliveries of the command and of the
reply and the turns of the device lead from each to the next (`Fleet.Scene.conveyed_delivery`,
`Fleet.Scene.conveyed_responder`), and the outcome is what the device has to say: that it has taken
the version that arrived, or which one it runs.
-/

namespace Flotilla

namespace Errand

open Rollout

/-- The step of the job. -/
def step (bundle version : String) : Errand → JobStep
  | push => ((JobStep.new deployBundle).withProperty "bundle" bundle).withProperty "version" version
  | check => (JobStep.new verifyBundle).withProperty "version" version

/-- What kind of a step it is. -/
def definition : Errand → StepDefinition
  | push => ⟨deployBundle, ["bundle", "version"], deploy⟩
  | check => ⟨verifyBundle, ["version"], verify⟩

/-- The registry of a rollout knows its steps. -/
theorem lookup_step {registry : Registry} (h : register .empty = .ok registry)
    (bundle version : String) (errand : Errand) :
    registry.lookup (errand.step bundle version).definition = .ok errand.definition := by
  obtain rfl := Fleet.eq_rolloutRegistry h
  cases errand <;> rfl

/-- A step that is in hand is this one. -/
structure Binds (bundle version : String) (errand : Errand) (run : StepRun) : Prop where
  definition : run.definition = errand.definition
  properties : run.properties = errand.definition.declared (errand.step bundle version).properties

variable {bundle version : String} {errand : Errand} {run : StepRun}

/-- What is done in an attempt at such a step. -/
theorem Binds.behaviour_eq (h : Binds bundle version errand run) {ctx : StepContext}
    (hctx : ctx.properties = run.properties) :
    run.definition.behaviour ctx =
      errand.program ctx.target bundle version ctx.config.requestTimeout := by
  rw [h.definition]
  rw [h.properties] at hctx
  cases errand with
  | push =>
    refine deploy_eq ?_ ?_
    · rw [StepContext.property?, hctx]
      rfl
    · rw [StepContext.property?, hctx]
      rfl
  | check =>
    refine verify_eq bundle ?_
    rw [StepContext.property?, hctx]
    rfl

private theorem notMem_command (errand : Errand) : '/' ∉ errand.command.toList := by
  cases errand <;> decide

/-- The message tells the device to run the errand. -/
structure Carries (d : Device) (bundle version : String) (errand : Errand) (key : CorrelationKey)
    (m : Message) : Prop where
  topic : m.topic = Topic.command d.root d.id errand.command
  key : m.correlationId = key
  text : m.text = errand.payload bundle version

/-- The message is the reply of the device. -/
structure Answers (d : Device) (bundle version : String) (errand : Errand) (key : CorrelationKey)
    (m : Message) : Prop where
  topic : m.topic = d.replyTopic
  key : m.correlationId = key
  text : m.text = errand.answer bundle version

/-- What the device says to a command, and the version that it runs from then on. -/
theorem Carries.answer {d : Device} {key : CorrelationKey} {m : Message}
    (h : errand.Carries d bundle version key m) (hrefuses : d.failingDeploys = 0)
    {running : String} (hruns : errand = .check → running = arriving bundle version)
    (received : Nat) (nowMs : UInt64) :
    ∃ m', ({ d with version := running, received } : Device).answer m nowMs =
        (m', { d with version := arriving bundle version, received }) ∧
      errand.Answers d bundle version key m' := by
  have hcommand : Topic.lastLevel m.topic = errand.command := by
    rw [h.topic]
    exact Topic.lastLevel_command d.root d.id errand.notMem_command
  have hexecute : ({ d with version := running, received } : Device).execute errand.command
      (errand.payload bundle version) =
        (errand.answer bundle version,
          { d with version := arriving bundle version, received }) := by
    cases errand with
    | push =>
      rw [Device.execute, command, if_pos rfl, Device.deploy, if_neg (not_not_intro hrefuses),
        payload, get?_version_deployment]
      rfl
    | check =>
      have hcommand : ¬"status" = "deploy" := by decide
      rw [Device.execute, command, if_neg hcommand, if_pos rfl, hruns rfl, Errand.answer]
  rw [Device.answer, hcommand, h.text, hexecute]
  exact ⟨_, rfl, rfl, h.key, Text.lossy_utf8 _⟩

end Errand

namespace Fleet

open Rollout Errand

/-- The devices run this version. -/
def Runs (f : Fleet) (version : String) : Prop := ∀ dev ∈ f.devices, dev.version = version

/-- All commands that have reached a device are dealt with. -/
def Resting (f : Fleet) : Prop :=
  ∀ (index : Nat) (r : Responder), f.responders[index]? = some r → r.stage = .gone

/-- Nothing is on its way between the device and its job. -/
structure Idle (d : Device) (f : Fleet) : Prop where
  mail : f.mailFor d = []
  resting : f.Resting

/-- A request of the job to the device waits. -/
def Waits (d : Device) (own : Option JobId) (key : CorrelationKey) (f : Fleet) : Prop :=
  ∃ request, f.correlator.pending.get? key = some request ∧ request.target = d.id ∧
    request.owner = own

/-- How far a command to the device is, and what has become of it. -/
inductive Underway (d : Device) (own : Option JobId) (bundle version : String) (errand : Errand)
    (key : CorrelationKey) (f : Fleet) : Prop
  | sent {m : Message} (hmail : f.mailFor d = [m]) (hm : errand.Carries d bundle version key m)
    (hresting : f.Resting) (hwaits : f.Waits d own key)
  | held {index : Nat} {r : Responder} (hmail : f.mailFor d = [])
    (hr : f.responders[index]? = some r) (hdevice : r.device = 0)
    (hm : errand.Carries d bundle version key r.message)
    (hothers : ∀ (i : Nat) (r' : Responder),
      f.responders[i]? = some r' → r'.stage ≠ .gone → i = index)
    (hwaits : f.Waits d own key)
  | answered {m : Message} (hmail : f.mailFor d = [m])
    (hm : errand.Answers d bundle version key m) (hresting : f.Resting)
    (hruns : f.Runs (arriving bundle version)) (hwaits : f.Waits d own key)
  | settled {reply : Response} (hidle : f.Idle d)
    (houtcome : f.correlator.outcome? key = some (.ok reply))
    (htext : reply.text = errand.answer bundle version)
    (hruns : f.Runs (arriving bundle version))

variable {d : Device} {config : Config} {own : Option JobId} {bundle version : String}
  {errand : Errand} {key : CorrelationKey} {f g : Fleet}

/-- A device that was passed by has still nothing on its way. -/
theorem PassesBy.idle (hpasses : PassesBy d own f g) (h : f.Idle d) : g.Idle d where
  mail := hpasses.mail.trans h.mail
  resting := by
    rw [Resting, hpasses.responders]
    exact h.resting

/-- A device that was passed by runs what it ran. -/
theorem PassesBy.runs (hpasses : PassesBy d own f g) {version : String} (h : f.Runs version) :
    g.Runs version := by
  rw [Runs, hpasses.devices]
  exact h

/-- A request to a device that was passed by still waits. -/
theorem PassesBy.waits (hpasses : PassesBy d own f g) (h : f.Waits d own key) :
    g.Waits d own key := by
  obtain ⟨request, hp, htarget, howner⟩ := h
  exact ⟨request, hpasses.pending key request hp htarget howner, htarget, howner⟩

/-- A command to a device that was passed by is as far as it was. -/
theorem PassesBy.underway (hpasses : PassesBy d own f g)
    (h : f.Underway d own bundle version errand key) :
    g.Underway d own bundle version errand key := by
  have hresponders := hpasses.responders
  have hrests (h : f.Resting) : g.Resting := by
    rw [Resting, hresponders]
    exact h
  cases h with
  | sent hmail hm hresting hwaits =>
    exact .sent (hpasses.mail.trans hmail) hm (hrests hresting) (hpasses.waits hwaits)
  | held hmail hr hdevice hm hothers hwaits =>
    rw [← hresponders] at hr hothers
    exact .held (hpasses.mail.trans hmail) hr hdevice hm hothers (hpasses.waits hwaits)
  | answered hmail hm hresting hruns hwaits =>
    exact .answered (hpasses.mail.trans hmail) hm (hrests hresting) (hpasses.runs hruns)
      (hpasses.waits hwaits)
  | settled hidle houtcome htext hruns =>
    exact .settled (hpasses.idle hidle) (hpasses.outcome _ _ houtcome) htext (hpasses.runs hruns)

/-- A command to the device is sent. -/
theorem Scene.commanded (hf : Scene d config own f) (hd : d.Willing config) (hidle : f.Idle d)
    (hsent : f.correlator.sent + 1 < 2 ^ 64) (errand : Errand) (bundle version : String)
    (timeout : Nat) :
    ∃ handle g,
      f.send ⟨d.id, errand.command, Text.utf8 (errand.payload bundle version), own⟩ timeout =
        (.ok handle, g) ∧
      Scene d config own g ∧ g.jobs = f.jobs ∧ g.transactions = f.transactions ∧
      g.devices = f.devices ∧ g.correlator.outcome? handle.key = none ∧
      g.Underway d own bundle version errand handle.key := by
  let request : Request :=
    ⟨d.id, errand.command, Text.utf8 (errand.payload bundle version), own⟩
  obtain ⟨handle, c, agenda, chronicle, hsend, hentered, hkeyed, houtcome⟩ :=
    hf.send_eq hsent request timeout
  have hterms : c.config = config := hentered.config.trans hf.terms
  let m := c.message handle.key request f.now
  have htopic : m.topic = config.commandTopic d.id errand.command := by
    rw [← hterms]
    rfl
  have hcarries : errand.Carries d bundle version handle.key m :=
    ⟨by rw [htopic, Config.commandTopic, ← hd.root], rfl, Text.lossy_utf8 _⟩
  have hmail : (f.broker.inbox ++ [m]).filter d.concerns = [m] := by
    have hbefore : f.broker.inbox.filter d.concerns = [] := hidle.mail
    rw [List.filter_append, hbefore,
      List.filter_cons_of_pos (hd.concerns_command errand.command htopic)]
    rfl
  exact ⟨handle, _, hsend, { hf with terms := hterms, requests := hkeyed }, rfl, rfl, rfl, houtcome,
    .sent hmail hcarries hidle.resting ⟨_, hentered.get?_pending_self, rfl, rfl⟩⟩

/-- A step that brings what is under way further. -/
structure Conveyed (d : Device) (config : Config) (own : Option JobId) (bundle version : String)
    (errand : Errand) (key : CorrelationKey) (f g : Fleet) : Prop where
  scene : Scene d config own g
  underway : g.Underway d own bundle version errand key
  jobs : g.jobs = f.jobs
  record : g.transactions.store.store.read (versionKey d.id) =
    f.transactions.store.store.read (versionKey d.id)
  runs : f.Runs (arriving bundle version) → g.Runs (arriving bundle version)

/-- The only message that the device has to do with is the next one. -/
theorem mail_of_cons {m m' : Message} {rest : List Message} (hinbox : f.broker.inbox = m :: rest)
    (hm : d.concerns m = true) (hmail : f.mailFor d = [m']) :
    m = m' ∧ rest.filter d.concerns = [] := by
  rw [mailFor, hinbox, List.filter_cons_of_pos hm] at hmail
  exact ⟨(List.cons.inj hmail).1, (List.cons.inj hmail).2⟩

/-- A message about the device that waits in front is among its mail. -/
theorem mail_ne_nil {m : Message} {rest : List Message} (hinbox : f.broker.inbox = m :: rest)
    (hm : d.concerns m = true) : f.mailFor d ≠ [] := by
  rw [mailFor, hinbox, List.filter_cons_of_pos hm]
  exact List.cons_ne_nil _ _

/-- The device is handed a command. -/
theorem Scene.delivered_command (hf : Scene d config own f) (hd : d.Willing config) {m : Message}
    {rest : List Message} (hinbox : f.broker.inbox = m :: rest)
    (htopic : m.topic = Topic.command d.root d.id errand.command) :
    ∃ agenda, f.deliveryTurn.fleet = { f with
      agenda, broker := { f.broker with inbox := rest, delivering := true }
      responders := f.responders ++ [⟨0, m, .received⟩] } := by
  have hreply : Topic.covers config.replyPattern m.topic = false := by
    rw [htopic, Config.replyPattern, ← hd.root]
    exact Topic.not_covers_anyReply_command d.root d.id errand.command
  have hcommand : Topic.covers d.commandPattern m.topic = true := by
    rw [htopic]
    exact hd.addresses.covers_anyCommand errand.command
  rw [fleet_deliveryTurn hf.opened hinbox, hf.matching, hreply, hcommand]
  exact ⟨f.agenda.wake (.responder f.responders.length), rfl⟩

/-- The reply of the device is taken in. -/
theorem Scene.delivered_reply (hf : Scene d config own f) (hd : d.Willing config) {m : Message}
    {rest : List Message} (hinbox : f.broker.inbox = m :: rest) (htopic : m.topic = d.replyTopic) :
    ∃ agenda, f.deliveryTurn.fleet = { f with
      agenda, broker := { f.broker with inbox := rest, delivering := true }
      correlator := f.correlator.onMessage f.now m } := by
  have hreply : Topic.covers config.replyPattern m.topic = true := by
    rw [htopic, Config.replyPattern, ← hd.root]
    exact hd.addresses.covers_anyReply
  have hcommand : Topic.covers d.commandPattern m.topic = false := by
    rw [htopic]
    exact hd.addresses.not_covers_anyCommand_reply
  rw [fleet_deliveryTurn hf.opened hinbox, hf.matching, hreply, hcommand]
  obtain ⟨agenda, hon⟩ := (hf.taken rest true).onMessage_eq m
  exact ⟨agenda, hon⟩

/-- The delivery of a message that concerns the device brings what is under way further. -/
theorem Scene.conveyed_delivery (hf : Scene d config own f) (hd : d.Willing config)
    (h : f.Underway d own bundle version errand key) {m : Message} {rest : List Message}
    (hinbox : f.broker.inbox = m :: rest) (hm : d.concerns m = true) :
    Conveyed d config own bundle version errand key f f.deliveryTurn.fleet := by
  cases h with
  | sent hmail hcarries hresting hwaits =>
    obtain ⟨rfl, hrest⟩ := mail_of_cons hinbox hm hmail
    obtain ⟨agenda, hturn⟩ := hf.delivered_command hd hinbox hcarries.topic
    rw [hturn]
    refine ⟨{ hf with }, ?_, rfl, rfl, fun hruns => hruns⟩
    have hreceived : (f.responders ++ [(⟨0, m, .received⟩ : Responder)])[f.responders.length]? =
        some ⟨0, m, .received⟩ := List.getElem?_concat_length
    refine .held hrest hreceived rfl hcarries (fun i r hr hlive => ?_) hwaits
    rcases Nat.lt_trichotomy i f.responders.length with hlt | heq | hgt
    · rw [List.getElem?_append_left hlt] at hr
      exact (hlive (hresting i r hr)).elim
    · exact heq
    · have hlength : (f.responders ++ [(⟨0, m, .received⟩ : Responder)]).length ≤ i := by
        rw [List.length_append]
        exact hgt
      cases (List.getElem?_eq_none hlength).symm.trans hr
  | held hmail => exact (mail_ne_nil hinbox hm hmail).elim
  | answered hmail hanswers hresting hruns hwaits =>
    obtain ⟨rfl, hrest⟩ := mail_of_cons hinbox hm hmail
    obtain ⟨agenda, hturn⟩ := hf.delivered_reply hd hinbox hanswers.topic
    have hserves : Correlator.Serves none f.correlator (f.correlator.onMessage f.now m) :=
      f.correlator.serves_onMessage f.now m
    obtain ⟨request, hp, htarget, howner⟩ := hwaits
    have htopic : m.topic = f.correlator.config.replyTopic request.target := by
      rw [hf.terms, htarget, ← hd.replyTopic_eq]
      exact hanswers.topic
    rw [← hanswers.key] at hp
    have houtcome := hf.requests.answered f.now hp htopic
    rw [hanswers.key] at houtcome
    rw [hturn]
    refine ⟨{ hf with
        terms := hserves.config.trans hf.terms
        requests := hf.requests.onMessage f.now m }, ?_, rfl, rfl, fun hruns => hruns⟩
    exact .settled ⟨hrest, hresting⟩ houtcome hanswers.text hruns
  | settled hidle => exact (mail_ne_nil hinbox hm hidle.mail).elim

/-- Whatever becomes of the commands in the device. -/
theorem Scene.attending (hf : Scene d config own f) (agenda : Agenda) (responders : List Responder)
    (version : String) (received : Nat) :
    Scene d config own { f with agenda, responders, devices := [{ d with version, received }] } :=
  { hf with devices := ⟨version, received, rfl⟩ }

/-- The device answers the command that it has been dealing with. -/
theorem Scene.conveyed_answer (hf : Scene d config own f) (hd : d.Willing config) {index : Nat}
    {r : Responder} (hdevice : r.device = 0) {running : String} {received : Nat}
    (hdevices : f.devices = [{ d with version := running, received }])
    (hmail : f.mailFor d = []) (hm : errand.Carries d bundle version key r.message)
    (hothers : ∀ (i : Nat) (r' : Responder),
      f.responders[i]? = some r' → r'.stage ≠ .gone → i = index)
    (hwaits : f.Waits d own key) (hruns : errand = .check → running = arriving bundle version) :
    Conveyed d config own bundle version errand key f
      (f.respond index r { d with version := running, received }).fleet := by
  obtain ⟨m, hanswer, hanswers⟩ := hm.answer hd.failingDeploys hruns received f.nowMs
  let g : Fleet := { f with
    devices := [{ d with version := arriving bundle version, received }]
    responders := f.responders.modify index fun r => { r with stage := .gone } }
  have hg : Scene d config own g := hf.attending f.agenda _ _ _
  have hturn : (f.respond index r { d with version := running, received }).fleet =
      ({ g with broker := { f.broker with inbox := f.broker.inbox ++ [m] } }.chronicled
        (.published m)).wake .delivery := by
    have hmodified : f.modifyDevice r.device (fun _ =>
        { d with version := arriving bundle version, received }) =
        { f with devices := [{ d with version := arriving bundle version, received }] } := by
      rw [modifyDevice, hdevice, hdevices]
      rfl
    rw [respond, hanswer]
    dsimp only
    rw [hmodified]
    change (g.publish m).2 = _
    rw [publish, publish_eq hg.opened hg.available]
  have hruns' : g.Runs (arriving bundle version) := by
    intro dev hdev
    rw [List.mem_singleton.1 hdev]
  rw [hturn]
  refine ⟨{ hg with }, ?_, rfl, rfl, fun _ => hruns'⟩
  refine .answered (m := m) ?_ hanswers ?_ hruns' hwaits
  · change (f.broker.inbox ++ [m]).filter d.concerns = [m]
    have hbefore : f.broker.inbox.filter d.concerns = [] := hmail
    rw [List.filter_append, hbefore, List.filter_cons_of_pos (Device.concerns_reply hanswers.topic)]
    rfl
  · intro i r' hr'
    change (f.responders.modify index _)[i]? = some r' at hr'
    rw [List.getElem?_modify] at hr'
    obtain ⟨r₀, hr₀, rfl⟩ := Option.map_eq_some_iff.1 hr'
    split
    · rfl
    · next hne =>
      by_contra hlive
      exact hne (hothers i r₀ hr₀ hlive).symm

/-- A turn of the device brings what is under way further. -/
theorem Scene.conveyed_responder (hf : Scene d config own f) (hd : d.Willing config)
    (h : f.Underway d own bundle version errand key)
    (hruns : errand = .check → f.Runs (arriving bundle version)) {index : Nat} {r : Responder}
    (hr : f.responders[index]? = some r) (hlive : r.stage ≠ .gone) :
    Conveyed d config own bundle version errand key f (f.responderTurn index).fleet := by
  cases h with
  | sent _ _ hresting => exact (hlive (hresting index r hr)).elim
  | answered _ _ hresting => exact (hlive (hresting index r hr)).elim
  | settled hidle => exact (hlive (hidle.resting index r hr)).elim
  | @held index' r' hmail hr' hdevice hm hothers hwaits =>
    obtain rfl := hothers index r hr hlive
    obtain rfl := Option.some.inj (hr.symm.trans hr')
    obtain ⟨running, received, hdevices⟩ := hf.devices
    have hversion (hcheck : errand = .check) : running = arriving bundle version :=
      hruns hcheck _ (hdevices ▸ List.mem_singleton_self _)
    have hfound : f.devices[r.device]? = some { d with version := running, received } := by
      rw [hdevice, hdevices]
      rfl
    unfold responderTurn
    rw [hr]
    dsimp only
    rw [hfound]
    dsimp only
    cases hstage : r.stage with
    | gone => exact (hlive hstage).elim
    | delaying wakeAt =>
      dsimp only
      split
      · exact hf.conveyed_answer hd hdevice hdevices hmail hm hothers hwaits hversion
      · exact ⟨hf, .held hmail hr hdevice hm hothers hwaits, rfl, rfl, fun hruns => hruns⟩
    | received =>
      have hreceived : f.modifyDevice r.device Device.receive =
          { f with devices := [{ d with version := running, received := received + 1 }] } := by
        rw [modifyDevice, hdevice, hdevices]
        rfl
      dsimp only
      rw [hreceived, if_neg (by rw [hd.silent]; exact Bool.false_ne_true)]
      have hg := hf.attending f.agenda f.responders running (received + 1)
      have hsame (hbefore : f.Runs (arriving bundle version)) :
          Runs { f with devices := [{ d with version := running, received := received + 1 }] }
            (arriving bundle version) := by
        intro dev hdev
        rw [List.mem_singleton.1 hdev]
        exact hbefore { d with version := running, received } (hdevices ▸ List.mem_singleton_self _)
      split
      · have hanswered := hg.conveyed_answer hd hdevice rfl hmail hm hothers hwaits hversion
        exact { hanswered with runs := fun hbefore => hanswered.runs (hsame hbefore) }
      · let waking : ResponderStage := .delaying (Nanos.wakeTime f.now d.delay)
        have hagain : (f.responders.modify index fun r => { r with stage := waking })[index]? =
            some { r with stage := waking } := by
          rw [List.getElem?_modify, hr, Option.map_eq_map, Option.map_some, if_pos rfl]
        refine ⟨{ hg with }, ?_, rfl, rfl, hsame⟩
        refine .held hmail hagain hdevice hm (fun i r' hr' hlive' => ?_) hwaits
        change (f.responders.modify index _)[i]? = some r' at hr'
        rw [List.getElem?_modify] at hr'
        obtain ⟨r₀, hr₀, rfl⟩ := Option.map_eq_some_iff.1 hr'
        by_cases heq : index = i
        · exact heq.symm
        · rw [if_neg heq] at hlive'
          exact hothers i r₀ hr₀ hlive'

end Fleet

end Flotilla
