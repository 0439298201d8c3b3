import Flotilla.Proofs.Fleet.Routine
import Flotilla.Proofs.Requests.Keys
import Flotilla.Proofs.Rollout.Errands

/-!
# Attempts that check a version

An attempt at a step of a rollout sends one command and is over when it has the reply, or it checks
the version that the step asks for (`Rollout.Attempt`). Only what is left of a check when it has its
reply writes anything beside job records, and that is the version that was asked for and reported
(`Fleet.run_next_check`); the beginning of an attempt does not (`Fleet.run_attempt`).
-/

namespace Flotilla

/-- The step whose turn it is checks for this version. -/
def Job.Verifies (job : Job) (version : String) : Prop :=
  ∃ s, job.current? = some s ∧ s.definition = Rollout.verifyBundle ∧
    s.properties.get? "version" = some version

/-- What waits for the reply to a check on behalf of a job. -/
def Job.inquiry (config : Config) (job : Job) : Pending :=
  ⟨job.target, config.replyTopic job.target, some job.id, config.requestTimeout⟩

namespace Rollout

/-- What an attempt at a step of a rollout does. -/
inductive Attempt (ctx : StepContext) : Program Stepping (Except Fault Unit) → Prop
  | finished (result : Except Fault Unit) : Attempt ctx (.done result)
  /-- It sends one command and is over when it has the reply. -/
  | orders (command : String) (payload : Bytes) (timeout : Nat)
    {next : Outcome → Program Stepping (Except Fault Unit)}
    (h : ∀ outcome, ∃ result, next outcome = .done result) :
    Attempt ctx ((Stepping.request command payload timeout).bind next)
  | checks {version : String} (hkey : ctx.definition = verifyBundle)
    (hversion : ctx.property? "version" = some version) :
    Attempt ctx (Errand.check.program ctx.target "" version ctx.config.requestTimeout)

/-- Sending a command is something that an attempt at a step of a rollout does. -/
theorem attempt_order (ctx : StepContext) (command payload : String) :
    Attempt ctx (order ctx command payload) := by
  refine .orders command _ _ fun outcome => ?_
  cases outcome <;> exact ⟨_, rfl⟩

/-- A deployment is something that an attempt at a step of a rollout does. -/
theorem attempt_deploy (ctx : StepContext) : Attempt ctx (deploy ctx) := by
  unfold deploy
  split
  · exact .finished _
  · split
    · exact .finished _
    · exact attempt_order ctx _ _

/-- A check is something that an attempt at a step of a rollout does. -/
theorem attempt_verify {ctx : StepContext} (hkey : ctx.definition = verifyBundle) :
    Attempt ctx (verify ctx) := by
  cases hversion : ctx.property? "version" with
  | none =>
    unfold verify StepContext.require
    rw [hversion]
    exact .finished _
  | some version =>
    rw [Errand.verify_eq "" hversion]
    exact .checks hkey hversion

/-- A restart is something that an attempt at a step of a rollout does. -/
theorem attempt_restart (ctx : StepContext) : Attempt ctx (restart ctx) := by
  unfold restart
  split
  · exact .finished _
  · exact attempt_order ctx _ _

/-- Whatever a check learns, it is over then but for the version. -/
theorem closing_next_check (target version : String) (outcome : Outcome) :
    Closing target (Errand.check.next target version outcome) := by
  cases outcome with
  | error fault => exact .finished _
  | ok reply =>
    rw [Errand.next]
    split
    · exact .finished _
    · exact .keeps _

end Rollout

/-- A kind of steps whose attempts are of these forms. -/
def StepDefinition.Checks (d : StepDefinition) : Prop :=
  ∀ ctx, ctx.definition = d.key → Rollout.Attempt ctx (d.behaviour ctx)

/-- All definitions are such and stand under their own keys. -/
def Registry.Checks (r : Registry) : Prop :=
  ∀ key d, r.lookup key = .ok d → d.key = key ∧ d.Checks

/-- The definitions of a rollout are of these forms, and stand under their own keys. -/
theorem Rollout.checks_register {registry : Registry} (h : register .empty = .ok registry) :
    registry.Checks := by
  obtain rfl := Fleet.eq_rolloutRegistry h
  have hentries : Fleet.rolloutRegistry.definitions.entries = definitions.map fun d => (d.key, d) :=
    rfl
  intro key d hlookup
  unfold Registry.lookup at hlookup
  split at hlookup
  · next hget =>
    cases hlookup
    rw [Table.get?_eq_some_iff, hentries] at hget
    obtain ⟨d', hd', heq⟩ := List.mem_map.1 hget
    cases heq
    refine ⟨rfl, ?_⟩
    simp only [definitions, List.mem_cons, List.not_mem_nil, or_false] at hd'
    rcases hd' with rfl | rfl | rfl
    · exact fun ctx _ => attempt_deploy ctx
    · exact fun ctx hkey => attempt_verify hkey
    · exact fun ctx _ => attempt_restart ctx
  · cases hlookup

namespace Fleet

open Rollout

variable {f g : Fleet} {id : JobId} {target : String}

/-- The version of a device is committed, and nothing else happens. -/
structure Certifies (target version : String) (f g : Fleet) : Prop where
  chronicle : ∃ tx, g.chronicle =
    f.chronicle ++ [(f.now, .committed tx [.put (versionKey target) (Text.utf8 version)])]
  store : g.transactions.store.store =
    f.transactions.store.store.apply (.put (versionKey target) (Text.utf8 version))

/-- A version is refused and nothing changes, or it is committed. -/
theorem run_keepVersion_cases (f : Fleet) (id : JobId) (target expected : String) :
    Routine f (f.run id target (keepVersion target expected)).2 ∨
      Certifies target expected f (f.run id target (keepVersion target expected)).2 := by
  let tx : Tx := f.versionTx target expected
  have herror := @UnreliableStore.store_commit_of_error f.transactions.store tx.toWrites tx.reads
  have hok := @UnreliableStore.commit_of_ok f.transactions.store tx.toWrites tx.reads
  rw [run_keepVersion_eq]
  unfold answerStore StoreAsk.answer Transactions.commit
  dsimp only
  generalize hcommit : UnreliableStore.commit _ _ _ = r
  obtain ⟨result, store⟩ := r
  have hresult : f.transactions.store.commit tx.toWrites tx.reads = (result, store) := hcommit
  rw [hresult] at herror hok
  cases result with
  | error fault => exact Or.inl (.of_eq (herror rfl) rfl rfl)
  | ok => exact Or.inr ⟨⟨tx.id, rfl⟩, (Store.commit_eq_ok_iff.1 (hok rfl)).1⟩

/-- What becomes of a check that learns what its request came to: it commits the version that was
asked for if the reply reports that one, and else nothing happens. -/
theorem run_next_check (f : Fleet) (id : JobId) (target version : String) (outcome : Outcome) :
    Routine f (f.run id target (Errand.check.next target version outcome)).2 ∨
    ∃ reply, outcome = .ok reply ∧ reportedVersion reply = version ∧
      Certifies target version f
        (f.run id target (Errand.check.next target version outcome)).2 := by
  cases outcome with
  | error fault => exact Or.inl (.refl f)
  | ok reply =>
    rw [Errand.next]
    by_cases hreported : reportedVersion reply = version
    · rw [if_neg (not_not_intro hreported)]
      exact (f.run_keepVersion_cases id target version).imp_right fun hcertifies =>
        ⟨reply, rfl, hreported, hcertifies⟩
    · rw [if_pos hreported]
      exact Or.inl (.refl f)

/-- The key that is given out next has no reply yet. -/
def Unheard (f : Fleet) : Prop :=
  ∀ r, f.correlator.outcome? (Ledger.nthKey f.correlator.sent) ≠ some (.ok r)

/-- A request whose command has been published under the key that was given out for it, and which
waits. -/
structure Posted (request : Request) (timeout : Nat) (key : CorrelationKey) (f g : Fleet) :
    Prop where
  key_eq : key = Ledger.nthKey f.correlator.sent
  sent : g.correlator.sent = f.correlator.sent + 1
  waits : g.correlator.pending.get? key =
    some (Correlator.entryFor f.correlator.config request timeout)
  published : ∃ m, g.chronicle = f.chronicle ++ [(f.now, .published m)] ∧
    m.topic = f.correlator.config.commandTopic request.target request.command ∧
    m.correlationId = key

/-- A request that is sent has been posted. -/
theorem posted_send {request : Request} {timeout : Nat} {handle : Handle}
    (h : f.send request timeout = (.ok handle, g)) : Posted request timeout handle.key f g := by
  obtain ⟨hsent, hkey⟩ := f.correlator.given_send f.now f.broker.publish request timeout
  have hconfig := (f.correlator.unanswered_send f.now f.broker.publish request timeout).config
  have hwaits := @Correlator.get?_pending_send _ f.correlator f.now f.broker.publish request timeout
  unfold send at h
  generalize f.correlator.send f.now f.broker.publish request timeout = r
    at h hsent hkey hconfig hwaits
  obtain ⟨result, c⟩ := r
  obtain ⟨agenda, hset⟩ := f.setCorrelator_eq c
  dsimp only at h hsent hkey hconfig hwaits
  rw [hset] at h
  cases result with
  | error fault => cases h
  | ok sent =>
    obtain ⟨handle', broker⟩ := sent
    cases h
    refine ⟨hkey handle broker rfl, hsent, hwaits rfl, _, rfl, ?_, rfl⟩
    exact congrArg (Config.commandTopic · request.target request.command) hconfig

/-- A request that a program begins with writes nothing, and if the program has to wait then it
waits for the reply. -/
theorem run_posts (hf : f.Unheard) (id : JobId) (target command : String) (payload : Bytes)
    (timeout : Nat) {next : Outcome → Program Stepping (Except Fault Unit)}
    (hnext : ∀ fault, ∃ result, next (.error fault) = .done result) :
    Routine f (f.run id target ((Stepping.request command payload timeout).bind next)).2 ∧
      ∀ s, (f.run id target ((Stepping.request command payload timeout).bind next)).1 = .inl s →
        ∃ key, s = .reply key next ∧ Posted ⟨target, command, payload, some id⟩ timeout key f
          (f.run id target ((Stepping.request command payload timeout).bind next)).2 := by
  have hsend := f.routine_send ⟨target, command, payload, some id⟩ timeout
  have hposted := @posted_send f (f.send ⟨target, command, payload, some id⟩ timeout).2
    ⟨target, command, payload, some id⟩ timeout
  rw [run_request]
  generalize f.send ⟨target, command, payload, some id⟩ timeout = r at hsend hposted
  obtain ⟨result, g⟩ := r
  cases result with
  | error fault =>
    obtain ⟨result, hdone⟩ := hnext fault
    dsimp only
    rw [hdone]
    exact ⟨hsend, nofun⟩
  | ok handle =>
    dsimp only at hsend hposted ⊢
    rw [run_await]
    split
    · next outcome houtcome =>
      cases outcome with
      | error fault =>
        obtain ⟨result, hdone⟩ := hnext fault
        rw [hdone]
        exact ⟨hsend, nofun⟩
      | ok reply =>
        have hold := hsend.requests.outcome _ _ houtcome
        rw [(hposted rfl).key_eq] at hold
        exact (hf reply hold).elim
    · refine ⟨hsend, fun s hs => ?_⟩
      cases hs
      exact ⟨handle.key, rfl, hposted rfl⟩

/-- What an attempt has come to when it has to wait. -/
inductive Suspends (ctx : StepContext) (id : JobId) (f g : Fleet) :
    Suspension (Except Fault Unit) → Prop
  | ordered (key : CorrelationKey) {next : Outcome → Program Stepping (Except Fault Unit)}
    (h : ∀ outcome, ∃ result, next outcome = .done result) : Suspends ctx id f g (.reply key next)
  | checks {version : String} {key : CorrelationKey} (hkey : ctx.definition = verifyBundle)
    (hversion : ctx.property? "version" = some version)
    (hposted : Posted ⟨ctx.target, "status", Text.utf8 "", some id⟩ ctx.config.requestTimeout key
      f g) : Suspends ctx id f g (.reply key (Errand.check.next ctx.target version))

/-- The beginning of an attempt writes nothing. -/
theorem run_attempt {ctx : StepContext} {program : Program Stepping (Except Fault Unit)}
    (h : Attempt ctx program) (hf : f.Unheard) (id : JobId) :
    Routine f (f.run id ctx.target program).2 ∧
      ∀ s, (f.run id ctx.target program).1 = .inl s →
        Suspends ctx id f (f.run id ctx.target program).2 s := by
  cases h with
  | finished result => exact ⟨.refl f, nofun⟩
  | orders command payload timeout hnext =>
    obtain ⟨hroutine, hwaits⟩ :=
      run_posts hf id ctx.target command payload timeout fun fault => hnext (.error fault)
    refine ⟨hroutine, fun s hs => ?_⟩
    obtain ⟨key, rfl, -⟩ := hwaits s hs
    exact .ordered key hnext
  | @checks version hkey hversion =>
    obtain ⟨hroutine, hwaits⟩ := run_posts hf id ctx.target "status" (Text.utf8 "")
      ctx.config.requestTimeout (fun fault => ⟨.error fault, rfl⟩ :
        ∀ fault, ∃ result, Errand.check.next ctx.target version (.error fault) = .done result)
    refine ⟨hroutine, fun s hs => ?_⟩
    obtain ⟨key, rfl, hposted⟩ := hwaits s hs
    exact .checks hkey hversion hposted

end Fleet

namespace JobEntry

open Rollout

variable {e e' : JobEntry} {f : Fleet} {id : JobId} {config : Config}

/-- The step in hand is the one whose turn it is. -/
structure HasInHand (e : JobEntry) (run : StepRun) : Prop where
  checks : run.definition.Checks
  step : ∃ s, e.job.current? = some s ∧ s.definition = run.definition.key ∧
    run.properties = run.definition.declared s.properties

/-- What such a step checks for is what the job asks for. -/
theorem HasInHand.verifies {run : StepRun} {version : String} (h : e.HasInHand run)
    (hkey : run.definition.key = verifyBundle)
    (hversion : run.properties.get? "version" = some version) : e.job.Verifies version := by
  obtain ⟨s, hs, hdefinition, hproperties⟩ := h.step
  rw [hproperties] at hversion
  exact ⟨s, hs, hdefinition.trans hkey, Table.get?_of_sublist List.filter_sublist hversion⟩

/-- A worker that has steps of a rollout in hand. -/
structure Checking (config : Config) (e : JobEntry) : Prop where
  inHand : ∀ run, e.stage.run? = some run → e.HasInHand run
  acting : ∀ run program, e.stage = .acting run program → Attempt (e.context config run) program

/-- A new job has no step in hand. -/
theorem checking_new (config : Config) (job : Job) : (JobEntry.new job).Checking config :=
  ⟨nofun, nofun⟩

private theorem Checking.same (h : e.Checking config) (hsame : e.Same e') : e'.Checking config where
  inHand run hrun := by
    rw [hsame.stage] at hrun
    exact ⟨(h.inHand run hrun).checks, hsame.job ▸ (h.inHand run hrun).step⟩
  acting run program hstage := by
    rw [hsame.stage] at hstage
    rw [context, hsame.job]
    exact h.acting run program hstage

/-- A turn leaves a worker with steps of a rollout in hand. -/
theorem Checking.brings (h : e.Checking f.config) (hregistry : f.registry.Checks)
    (hbrings : (e.work f id).Brings f id e e') : e'.Checking f.config where
  inHand run hrun := by
    cases takes_of_brings hbrings hrun with
    | kept hbefore hcurrent =>
      obtain ⟨hchecks, s, hs, hdefinition, hproperties⟩ := h.inHand run hbefore
      rw [hs, Option.map_some] at hcurrent
      obtain ⟨s', hs', hplan⟩ := Option.map_eq_some_iff.1 hcurrent
      have hsame : s'.plan.definition = s.plan.definition := congrArg JobStep.definition hplan
      have hproperties' : s'.plan.properties = s.plan.properties :=
        congrArg JobStep.properties hplan
      refine ⟨hchecks, s', hs', hsame.trans hdefinition, ?_⟩
      exact hproperties.trans (congrArg run.definition.declared hproperties'.symm)
    | @chosen s d hstage hcurrent hlookup hrun hnext =>
      obtain ⟨hkey, hchecks⟩ := hregistry s.definition d hlookup
      rw [hrun, hnext]
      exact ⟨hchecks, s, hcurrent, hkey.symm, rfl⟩
  acting run program hstage := by
    obtain ⟨hstart, rfl⟩ := acting_of_brings hbrings hstage
    cases hstage
    exact (h.inHand _ (by rw [hstart]; rfl)).checks _ rfl

/-- With a registry of rollouts, every worker has only steps of rollouts in hand. -/
theorem rule_checking : Rule fun config registry e => registry.Checks → e.Checking config :=
  .of_same (fun _ _ _ _ h hsame hregistry => (h hregistry).same hsame)
    fun _ _ _ _ h hbrings hregistry => (h hregistry).brings hregistry hbrings

end JobEntry

end Flotilla
