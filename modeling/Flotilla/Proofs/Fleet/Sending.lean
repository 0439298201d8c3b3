import Flotilla.Proofs.Fleet.Halting
import Flotilla.Proofs.Fleet.StepEffects
import Flotilla.Proofs.Requests.Ledger
import Flotilla.Rollout

/-!
# Commands that programs send

A program sends at most so many commands, whatever it is answered (`Program.SendsAtMost`), and what
it sends in one turn leaves the fewer for what is left of it (`Fleet.sends_run`). Each step of a
rollout sends at most one. The keys of the commands of a turn are among those that are given out in
it (`Fleet.Sends`), so no two turns send commands with the same key. The turns of tasks that send
no command give out no key (`Fleet.Keyless`).
-/

namespace Flotilla

/-- A program that sends at most `n` commands, whatever it is answered. -/
def Program.SendsAtMost {α : Type} : Program Stepping α → Nat → Prop
  | .done _, _ => True
  | .ask (.send ..) next, n => 0 < n ∧ ∀ answer, SendsAtMost (next answer) (n - 1)
  | .ask (.storing (.store _)) next, n => ∀ answer, SendsAtMost (next answer) n
  | .ask (.storing (.sleep _)) next, n => SendsAtMost (next ()) n
  | .ask (.await _) next, n => ∀ answer, SendsAtMost (next answer) n
  | .ask .stopSelf next, n => ∀ answer, SendsAtMost (next answer) n
  | .ask (.note _) next, n => SendsAtMost (next ()) n

/-- However a program that waits goes on, it sends at most `n` commands. -/
def Suspension.SendsAtMost {α : Type} (s : Suspension α) (n : Nat) : Prop :=
  ∀ program, s.Resumes program → program.SendsAtMost n

/-- A bound on what a program sends may be raised. -/
theorem Program.SendsAtMost.mono {α : Type} {m n : Nat} {p : Program Stepping α}
    (h : p.SendsAtMost m) (hle : m ≤ n) : p.SendsAtMost n := by
  induction p generalizing m n with
  | done value => trivial
  | ask question next ih =>
    cases question with
    | storing q =>
      cases q with
      | store q => exact fun answer => ih answer (h answer) hle
      | sleep span => exact ih () h hle
    | send command payload timeout =>
      exact ⟨Nat.lt_of_lt_of_le h.1 hle, fun answer => ih answer (h.2 answer) (by omega)⟩
    | await key => exact fun answer => ih answer (h answer) hle
    | stopSelf => exact fun answer => ih answer (h answer) hle
    | note note => exact ih () h hle

/-- A program followed by others that send nothing. -/
theorem Program.SendsAtMost.bind {α β : Type} {n : Nat} {p : Program Stepping α}
    (hp : p.SendsAtMost n) {next : α → Program Stepping β} (hnext : ∀ a m, (next a).SendsAtMost m) :
    (p.bind next).SendsAtMost n := by
  induction p generalizing n with
  | done value => exact hnext value n
  | ask question rest ih =>
    cases question with
    | storing q =>
      cases q with
      | store q => exact fun answer => ih answer (hp answer)
      | sleep span => exact ih () hp
    | send command payload timeout => exact ⟨hp.1, fun answer => ih answer (hp.2 answer)⟩
    | await key => exact fun answer => ih answer (hp answer)
    | stopSelf => exact fun answer => ih answer (hp answer)
    | note note => exact ih () hp

/-- Working with the store sends nothing. -/
theorem Stepping.sendsAtMost_storing {α : Type} (p : Program Storing α) (n : Nat) :
    (storing p).SendsAtMost n := by
  induction p with
  | done value => trivial
  | ask q next ih =>
    cases q with
    | store q => exact ih
    | sleep span => exact ih ()

/-- A request is one command. -/
theorem Stepping.sendsAtMost_request (command : String) (payload : Bytes) (timeout : Nat) :
    (request command payload timeout).SendsAtMost 1 := by
  refine ⟨Nat.one_pos, fun answer => ?_⟩
  cases answer with
  | error fault => trivial
  | ok key => exact fun _ => trivial

/-- A definition whose attempts send at most one command each. -/
def StepDefinition.SendsOnce (d : StepDefinition) : Prop := ∀ ctx, (d.behaviour ctx).SendsAtMost 1

namespace Rollout

private theorem sendsAtMost_order (ctx : StepContext) (command payload : String) :
    (order ctx command payload).SendsAtMost 1 := by
  refine (Stepping.sendsAtMost_request command _ _).bind fun answer n => ?_
  cases answer <;> trivial

private theorem sendsAtMost_deploy (ctx : StepContext) : (deploy ctx).SendsAtMost 1 := by
  unfold deploy
  split
  · trivial
  · split
    · trivial
    · exact sendsAtMost_order ctx _ _

private theorem sendsAtMost_verify (ctx : StepContext) : (verify ctx).SendsAtMost 1 := by
  unfold verify
  split
  · trivial
  · refine (Stepping.sendsAtMost_request "status" _ _).bind fun answer n => ?_
    cases answer with
    | error fault => trivial
    | ok reply =>
      dsimp only
      split
      · trivial
      · exact (Stepping.sendsAtMost_storing _ n).bind fun _ _ => trivial

private theorem sendsAtMost_restart (ctx : StepContext) : (restart ctx).SendsAtMost 1 := by
  unfold restart
  split
  · trivial
  · exact sendsAtMost_order ctx _ _

/-- Each attempt at a step of a rollout sends at most one command. -/
theorem sendsOnce_register {r r' : Registry} (h : r.All StepDefinition.SendsOnce)
    (hr : register r = .ok r') : r'.All StepDefinition.SendsOnce := by
  refine h.registerAll (fun d hd => ?_) hr
  simp only [definitions, List.mem_cons, List.not_mem_nil, or_false] at hd
  rcases hd with rfl | rfl | rfl
  · exact sendsAtMost_deploy
  · exact sendsAtMost_verify
  · exact sendsAtMost_restart

end Rollout

/-- Sending a request gives out one key, and a request that the channel takes has that key. -/
theorem Correlator.given_send {β : Type} (c : Correlator) (now : Nat)
    (publish : Message → Except Fault β) (request : Request) (timeout : Nat) :
    (c.send now publish request timeout).2.sent = c.sent + 1 ∧
      ∀ handle channel, (c.send now publish request timeout).1 = .ok (handle, channel) →
        handle.key = Ledger.nthKey c.sent := by
  rw [Correlator.send_eq]
  rcases c.enter_cases now request timeout with ⟨fault, he⟩ | ⟨handle, d, he, hentered⟩
  · rw [he]
    exact ⟨rfl, nofun⟩
  · rw [he]
    dsimp only
    cases publish (d.message handle.key request now) with
    | ok channel =>
      refine ⟨hentered.sent, fun _ _ hok => ?_⟩
      cases hok
      exact hentered.key
    | error fault => exact ⟨hentered.sent, nofun⟩

namespace Fleet

variable {f g h : Fleet} {sent later : List Message}

/-- What was sent from one fleet to the next: it is in the chronicle, and its keys were given out
in between. -/
structure Sends (f g : Fleet) (sent : List Message) : Prop where
  now : g.now = f.now
  publications : g.chronicle.publications = f.chronicle.publications ++ sent.map (f.now, ·)
  given : f.correlator.sent ≤ g.correlator.sent
  keys : ∀ m ∈ sent, ∃ n, f.correlator.sent ≤ n ∧ n < g.correlator.sent ∧
    m.correlationId = Ledger.nthKey n

private theorem Sends.nothing (hnow : g.now = f.now)
    (hpublications : g.chronicle.publications = f.chronicle.publications)
    (hgiven : f.correlator.sent ≤ g.correlator.sent) : Sends f g [] :=
  ⟨hnow, by rw [hpublications, List.map_nil, List.append_nil], hgiven, nofun⟩

/-- Nothing else is told of what was sent. -/
theorem Sends.of_eq (hfg : Sends f g sent) (hnow : h.now = g.now)
    (hchronicle : h.chronicle = g.chronicle) (hcorrelator : h.correlator = g.correlator) :
    Sends f h sent where
  now := hnow.trans hfg.now
  publications := hchronicle ▸ hfg.publications
  given := hcorrelator ▸ hfg.given
  keys := hcorrelator ▸ hfg.keys

/-- What is sent one after the other is sent in a row. -/
theorem Sends.trans (hfg : Sends f g sent) (hgh : Sends g h later) :
    Sends f h (sent ++ later) where
  now := hgh.now.trans hfg.now
  publications := by
    rw [hgh.publications, hfg.publications, hfg.now, List.append_assoc, List.map_append]
  given := Nat.le_trans hfg.given hgh.given
  keys m hm := by
    rcases List.mem_append.1 hm with hm | hm
    · obtain ⟨n, hle, hlt, hkey⟩ := hfg.keys m hm
      exact ⟨n, hle, Nat.lt_of_lt_of_le hlt hgh.given, hkey⟩
    · obtain ⟨n, hle, hlt, hkey⟩ := hgh.keys m hm
      exact ⟨n, Nat.le_trans hfg.given hle, hlt, hkey⟩

/-- Commands that were sent one after the other have different keys. -/
theorem Sends.key_ne {f' g' : Fleet} (hs : Sends f g sent) (hl : Sends f' g' later)
    (hbetween : g.correlator.sent ≤ f'.correlator.sent) (hlt : g'.correlator.sent < 2 ^ 64) :
    ∀ m ∈ sent, ∀ m' ∈ later, m'.correlationId ≠ m.correlationId := by
  intro m hm m' hm' hsame
  obtain ⟨n, -, hn, hkey⟩ := hs.keys m hm
  obtain ⟨n', hn', hlast, hkey'⟩ := hl.keys m' hm'
  rw [hkey, hkey'] at hsame
  have heq := Ledger.nthKey_injective (by omega) (by omega) hsame
  omega

/-- Sending a request sends at most one command. -/
theorem sends_send (f : Fleet) (request : Request) (timeout : Nat) :
    ∃ sent, Sends f (f.send request timeout).2 sent ∧ sent.length ≤ 1 := by
  obtain ⟨hgiven, hkey⟩ := f.correlator.given_send f.now f.broker.publish request timeout
  unfold send
  generalize f.correlator.send f.now f.broker.publish request timeout = r at hgiven hkey
  obtain ⟨result, c⟩ := r
  obtain ⟨agenda, hset⟩ := f.setCorrelator_eq c
  dsimp only at hgiven ⊢
  rw [hset]
  cases result with
  | error fault => exact ⟨[], .nothing rfl rfl (by dsimp only [wake]; omega), Nat.zero_le _⟩
  | ok sent =>
    obtain ⟨handle, broker⟩ := sent
    refine ⟨[c.message handle.key request f.now], ⟨rfl, ?_, ?_, ?_⟩, Nat.le_refl _⟩
    · exact Chronicle.publications_append _ _
    · dsimp only [wake, chronicled]
      omega
    · intro m hm
      obtain rfl := List.mem_singleton.1 hm
      refine ⟨f.correlator.sent, Nat.le_refl _, ?_, hkey handle broker rfl⟩
      dsimp only [wake, chronicled]
      omega

private theorem sends_answerStore (f : Fleet) (q : StoreAsk) : Sends f (f.answerStore q).2 [] := by
  unfold answerStore
  generalize q.answer f.now f.transactions = r
  obtain ⟨answer, m⟩ := r
  dsimp only
  cases hevent : q.event? answer with
  | none => exact .nothing rfl rfl (Nat.le_refl _)
  | some event =>
    refine .nothing rfl ?_ (Nat.le_refl _)
    unfold StoreAsk.event? at hevent
    split at hevent <;> cases hevent
    exact (Chronicle.publications_append _ _).trans (List.append_nil _)

private theorem sends_stop (f : Fleet) (id : JobId) : Sends f (f.stop id).2 [] := by
  rcases f.stop_cases id with ⟨fault, m, hstop, -⟩ | ⟨e, -, -, hstop⟩ |
    ⟨e, agenda, -, -, hstop⟩ <;> rw [hstop] <;> exact .nothing rfl rfl (Nat.le_refl _)

/-- What comes of running a program that sends at most `n` commands: what it has sent counts against
what it may still send. -/
def SendsUpTo {α : Type} (n : Nat) (f : Fleet) (r : (Suspension α ⊕ α) × Fleet) : Prop :=
  ∃ sent, Sends f r.2 sent ∧ sent.length ≤ n ∧ ∀ s, r.1 = .inl s → s.SendsAtMost (n - sent.length)

/-- What was sent before counts against what may still be sent. -/
theorem SendsUpTo.after {α : Type} {n : Nat} {r : (Suspension α ⊕ α) × Fleet}
    (h : Sends f g sent) (hlength : sent.length ≤ n) (hr : SendsUpTo (n - sent.length) g r) :
    SendsUpTo n f r := by
  obtain ⟨later, hlater, hle, hrest⟩ := hr
  refine ⟨sent ++ later, h.trans hlater, ?_, fun s hs => ?_⟩
  · rw [List.length_append]
    omega
  · rw [List.length_append, ← Nat.sub_sub]
    exact hrest s hs

/-- A program that is run sends no more than it may. -/
theorem sends_run {α : Type} (id : JobId) (target : String) {program : Program Stepping α}
    {n : Nat} (hp : program.SendsAtMost n) (f : Fleet) :
    SendsUpTo n f (f.run id target program) := by
  induction program generalizing f n with
  | done value => exact ⟨[], .nothing rfl rfl (Nat.le_refl _), Nat.zero_le _, nofun⟩
  | ask question next ih =>
    cases question with
    | storing q =>
      cases q with
      | store q => exact (ih _ (hp _) _).after (f.sends_answerStore q) (Nat.zero_le _)
      | sleep span =>
        rw [run]
        split
        · exact ih () hp f
        · refine ⟨[], .nothing rfl rfl (Nat.le_refl _), Nat.zero_le _, ?_⟩
          rintro s ⟨⟩ program rfl
          exact hp
    | send command payload timeout =>
      obtain ⟨sent, hsends, hlength⟩ := f.sends_send ⟨target, command, payload, some id⟩ timeout
      have hrest : n - 1 ≤ n - sent.length := Nat.sub_le_sub_left hlength n
      exact (ih _ ((hp.2 _).mono hrest) _).after hsends (Nat.le_trans hlength hp.1)
    | await key =>
      rw [run]
      split
      · exact ih _ (hp _) f
      · refine ⟨[], .nothing rfl rfl (Nat.le_refl _), Nat.zero_le _, ?_⟩
        rintro s ⟨⟩ program ⟨outcome, rfl⟩
        exact hp outcome
    | stopSelf => exact (ih _ (hp _) _).after (f.sends_stop id) (Nat.zero_le _)
    | note note =>
      have hnote : Sends f (f.chronicled (.noted id note)) [] :=
        .nothing rfl ((Chronicle.publications_append _ _).trans (List.append_nil _)) (Nat.le_refl _)
      exact (ih () hp _).after hnote (Nat.zero_le _)

variable {id : JobId} {e : JobEntry}

/-- A worker sends commands only when it runs a program. -/
theorem Works.sends_of_idle {work : Work} (h : f.Works id e work g) (hidle : work.Idle) :
    Sends f g [] := by
  have hgiven := h.workerFrame.requests.sent
  cases h with
  | change e' agenda permits => exact .nothing rfl rfl hgiven
  | refused fault m agenda _ _ => exact .nothing rfl rfl hgiven
  | @taken job cancels next tx m agenda _ _ =>
    refine .nothing rfl ?_ hgiven
    have hchronicle : (f.recorded tx (f.stamped job)).chronicle = f.chronicle ++
        [(f.now, .committed tx [recordOf (f.stamped job)]),
          (f.now, .recorded job.id job.state job.currentStep)] :=
      List.append_assoc _ _ _
    change (f.recorded tx (f.stamped job)).chronicle.publications = _
    rw [hchronicle, Chronicle.publications_append]
    exact List.append_nil _
  | performed => exact hidle.elim

/-- What a worker sends when it runs a program that sends at most `n` commands. -/
theorem sends_perform {n : Nat} {run : StepRun} {program : Program Stepping (Except Fault Unit)}
    (he : f.jobs.get? id = some e) (hid : e.job.id = id)
    (hwork : e.work f id = .perform run program) (hp : program.SendsAtMost n) :
    ∃ sent, Sends f (f.workerTurn id).fleet sent ∧ sent.length ≤ n ∧
      ∀ s, (f.run id e.job.target program).1 = .inl s → s.SendsAtMost (n - sent.length) := by
  have hworks := workerTurn_works he hid
  rw [hwork] at hworks
  generalize (f.workerTurn id).fleet = g at hworks
  cases hworks with
  | @performed _ _ result g e' before agenda hrun hentry =>
    obtain ⟨sent, hsends, hlength, hrest⟩ :=
      sends_run id e.job.target hp { f with agenda := before }
    obtain ⟨after, hsame⟩ := run_agenda id e.job.target program f before
    rw [hsame] at hrest
    rw [hrun] at hsends
    exact ⟨sent, ⟨hsends.now, hsends.publications, hsends.given, hsends.keys⟩, hlength, hrest⟩

private theorem sends_releaseCorrelator (f : Fleet) : Sends f f.releaseCorrelator [] := by
  unfold releaseCorrelator
  split
  · obtain ⟨agenda, hset⟩ :=
      { f with correlating := false }.setCorrelator_eq f.correlator.abandon
    rw [hset]
    have hserves : Correlator.Serves none f.correlator f.correlator.abandon :=
      f.correlator.serves_abandon
    exact .nothing rfl rfl hserves.sent
  · exact .nothing rfl rfl (Nat.le_refl _)

private theorem sends_callerLeaves (f : Fleet) (number : Nat) :
    Sends f (f.callerLeaves number).fleet [] := by
  have herased : Sends f { f with callers := f.callers.erase number } [] :=
    .nothing rfl rfl (Nat.le_refl _)
  exact herased.trans (sends_releaseCorrelator _)

private theorem sends_callerLearns (f : Fleet) (number : Nat) (outcome : Outcome) :
    Sends f (f.callerLearns number outcome).fleet [] := by
  have hsettled : Sends f (f.chronicled (.settled number outcome)) [] :=
    .nothing rfl ((Chronicle.publications_append _ _).trans (List.append_nil _)) (Nat.le_refl _)
  exact hsettled.trans (sends_callerLeaves _ number)

/-- A caller sends at most one command in a turn. -/
theorem sends_callerTurn (f : Fleet) (number : Nat) :
    ∃ sent, Sends f (f.callerTurn number).fleet sent ∧ sent.length ≤ 1 := by
  have hnothing {g : Fleet} (h : Sends f g []) : ∃ sent, Sends f g sent ∧ sent.length ≤ 1 :=
    ⟨[], h, Nat.zero_le _⟩
  unfold callerTurn
  split
  · exact hnothing (.nothing rfl rfl (Nat.le_refl _))
  · next c _ =>
    cases c.stage with
    | asking request timeout =>
      obtain ⟨sent, hsends, hlength⟩ := f.sends_send request timeout
      dsimp only
      generalize f.send request timeout = r at hsends
      obtain ⟨result, g⟩ := r
      cases result with
      | error fault =>
        have hall := hsends.trans (g.sends_callerLearns number (.error fault))
        rw [List.append_nil] at hall
        exact ⟨sent, hall, hlength⟩
      | ok handle => exact ⟨sent, hsends.of_eq rfl rfl rfl, hlength⟩
    | waiting key =>
      dsimp only
      split
      · exact hnothing (f.sends_callerLearns number _)
      · exact hnothing (.nothing rfl rfl (Nat.le_refl _))
    | leaving => exact hnothing (f.sends_callerLeaves number)

/-- A call sends one command at most. -/
theorem sends_call (f : Fleet) (number : Nat) (request : Request) (timeout : Nat) :
    ∃ sent, Sends f (f.call number request timeout).2 sent ∧ sent.length ≤ 1 := by
  obtain ⟨sent, hsends, hlength⟩ := f.sends_send request timeout
  unfold call
  generalize f.send request timeout = r at hsends
  obtain ⟨result, g⟩ := r
  cases result with
  | error fault => exact ⟨sent, hsends, hlength⟩
  | ok handle => exact ⟨sent, hsends.of_eq rfl rfl rfl, hlength⟩

/-- No key of a request is given out. -/
def Keyless (f g : Fleet) : Prop := g.correlator.sent = f.correlator.sent

private theorem Keyless.trans (hfg : Keyless f g) (hgh : Keyless g h) :
    Keyless f h := Eq.trans hgh hfg

/-- Settling requests gives out no key. -/
theorem keyless_setCorrelator (f : Fleet) {c : Correlator} (hc : c.sent = f.correlator.sent) :
    Keyless f (f.setCorrelator c) := by
  obtain ⟨agenda, hset⟩ := f.setCorrelator_eq c
  rw [hset]
  exact hc

/-- Publishing a message gives out no key. -/
theorem keyless_publish (f : Fleet) (m : Message) : Keyless f (f.publish m).2 := by
  unfold publish
  cases f.broker.publish m <;> rfl

private theorem keyless_handTo (f : Fleet) (m : Message) (s : Subscription Listener) :
    Keyless f (f.handTo m s) := by
  unfold handTo
  cases s.listener with
  | observer | device => rfl
  | correlator =>
    dsimp only
    unfold onMessage
    split
    · exact f.keyless_setCorrelator (f.correlator.settles_onMessage f.now m).sent
    · rfl

/-- The turn of the delivery gives out no key. -/
theorem keyless_deliveryTurn (f : Fleet) : Keyless f f.deliveryTurn.fleet := by
  have hall (m : Message) (subscriptions : List (Subscription Listener)) (g : Fleet) :
      Keyless g (subscriptions.foldl (fun f s => f.handTo m s) g) := by
    induction subscriptions generalizing g with
    | nil => rfl
    | cons s rest ih => exact (g.keyless_handTo m s).trans (ih (g.handTo m s))
  unfold deliveryTurn
  split
  · rfl
  · next m subscriptions broker _ => exact hall m subscriptions { f with broker }

/-- The turn of the supervisor gives out no key. -/
theorem keyless_supervisorTurn (f : Fleet) : Keyless f f.supervisorTurn.fleet := by
  unfold supervisorTurn
  split
  · have hpoll := f.keyless_setCorrelator (f.correlator.settles_pollDeadlines f.now).sent
    dsimp only
    split <;> exact hpoll
  · rfl

/-- The turn of the watcher gives out no key. -/
theorem keyless_watcherTurn (f : Fleet) : Keyless f f.watcherTurn.fleet := by
  unfold watcherTurn
  split
  · dsimp only [Turn.fleet]
    split
    · exact keyless_setCorrelator (f.chronicled .closed) f.correlator.settles_close.sent
    · rfl
  · rfl

/-- The turn of a responder gives out no key. -/
theorem keyless_responderTurn (f : Fleet) (index : Nat) :
    Keyless f (f.responderTurn index).fleet := by
  have hrespond (g : Fleet) (r : Responder) (d : Device) : Keyless g (g.respond index r d).fleet :=
    keyless_publish _ _
  unfold responderTurn
  split
  · rfl
  · next r _ =>
    split
    · rfl
    · next d _ =>
      split
      · dsimp only
        split
        · rfl
        · split
          · exact hrespond _ r d.receive
          · rfl
      · split
        · exact hrespond f r d
        · rfl
      · rfl

/-- Letting go of the correlator gives out no key. -/
theorem keyless_releaseCorrelator (f : Fleet) : Keyless f f.releaseCorrelator := by
  have habandon (c : Correlator) (entries : List (CorrelationKey × Pending)) :
      (entries.foldl (fun c e => (c.drop e.1).settle e.1 (.error (.cancelled e.1))) c).sent =
        c.sent := by
    induction entries generalizing c with
    | nil => rfl
    | cons e rest ih => exact ih _
  unfold releaseCorrelator
  split
  · exact keyless_setCorrelator { f with correlating := false } (habandon f.correlator _)
  · rfl

end Fleet

end Flotilla
