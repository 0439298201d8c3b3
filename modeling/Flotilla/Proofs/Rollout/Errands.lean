import Flotilla.Proofs.Fleet.Accepting
import Flotilla.Proofs.Fleet.WriteAhead
import Flotilla.Proofs.Payload

/-!
# What an attempt at a step of a rollout does

An attempt sends one command and waits for its reply at most, and it is over when it has the reply
but for a version that it may have to keep (`Rollout.Brief`). What pushing a bundle and checking the
version come to is decided by the answer (`Errand.next_of_answer`). With a store that takes all
commits keeping a version succeeds (`Fleet.run_keepVersion`).
-/

namespace Flotilla

namespace Rollout

/-- Keep a version as that of a device, and do nothing else. -/
def keepVersion (target expected : String) : Program Stepping (Except Fault Unit) :=
  (Stepping.storing (Storing.transact
    (fun tx => pure (.ok (), tx.put (versionKey target) (Text.utf8 expected), ())) [])).bind
    fun result => .done (unitOf result)

/-- What is left of it when the store has answered. -/
def kept : Except Fault Store → Program Stepping (Except Fault Unit)
  | .error fault => .done (.error fault)
  | .ok _ => .ask (S := Stepping) (.storing (.store .now)) fun _ => .done (.ok ())

/-- Keeping a version is one commit of it. -/
theorem keepVersion_eq (target expected : String) :
    keepVersion target expected = .ask (S := Stepping) (.storing (.store .begin)) fun tx =>
      .ask (S := Stepping)
        (.storing (.store (.commit (tx.put (versionKey target) (Text.utf8 expected))))) kept := by
  refine congrArg (Program.ask (S := Stepping) (.storing (.store .begin))) ?_
  funext tx
  refine congrArg (Program.ask (S := Stepping) (.storing (.store (.commit _)))) ?_
  funext answer
  cases answer <;> rfl

/-- A program that is over, but for a version that it keeps. -/
inductive Closing (target : String) : Program Stepping (Except Fault Unit) → Prop
  | finished (result : Except Fault Unit) : Closing target (.done result)
  | keeps (expected : String) : Closing target (keepVersion target expected)

/-- A program that is over, or that sends one command and is over when it has the reply. -/
inductive Brief (target : String) : Program Stepping (Except Fault Unit) → Prop
  | finished (result : Except Fault Unit) : Brief target (.done result)
  | asks (command : String) (payload : Bytes) (timeout : Nat)
    {next : Outcome → Program Stepping (Except Fault Unit)}
    (h : ∀ outcome, Closing target (next outcome)) :
    Brief target ((Stepping.request command payload timeout).bind next)

/-- Sending a command is brief. -/
theorem brief_order (ctx : StepContext) (target command payload : String) :
    Brief target (order ctx command payload) := by
  refine .asks command _ _ fun outcome => ?_
  cases outcome with
  | error fault => exact .finished _
  | ok reply => exact .finished _

private theorem brief_deploy (ctx : StepContext) : Brief ctx.target (deploy ctx) := by
  unfold deploy
  split
  · exact .finished _
  · split
    · exact .finished _
    · exact brief_order ctx _ _ _

private theorem brief_verify (ctx : StepContext) : Brief ctx.target (verify ctx) := by
  unfold verify
  split
  · exact .finished _
  · refine .asks "status" _ _ fun outcome => ?_
    cases outcome with
    | error fault => exact .finished _
    | ok reply =>
      dsimp only
      split
      · exact .finished _
      · exact .keeps _

private theorem brief_restart (ctx : StepContext) : Brief ctx.target (restart ctx) := by
  unfold restart
  split
  · exact .finished _
  · exact brief_order ctx _ _ _

end Rollout

/-- A kind of steps whose attempts are brief. -/
def StepDefinition.Brief (d : StepDefinition) : Prop :=
  ∀ ctx, Rollout.Brief ctx.target (d.behaviour ctx)

/-- The attempts of a rollout's steps are brief. -/
theorem Rollout.brief_register {registry : Registry} (h : register .empty = .ok registry) :
    registry.All StepDefinition.Brief := by
  refine (Registry.all_empty _).registerAll (fun d hd => ?_) h
  simp only [definitions, List.mem_cons, List.not_mem_nil, or_false] at hd
  rcases hd with rfl | rfl | rfl
  · exact brief_deploy
  · exact brief_verify
  · exact brief_restart

/-- The two steps of rolling out a version. -/
inductive Errand where
  /-- Push the bundle. -/
  | push
  /-- Check the version. -/
  | check
  deriving DecidableEq, Repr

namespace Errand

open Rollout

/-- The step's place in the job. -/
def index : Errand → Nat
  | push => 0
  | check => 1

/-- What the device is told. -/
def command : Errand → String
  | push => "deploy"
  | check => "status"

/-- What goes with it. -/
def payload (bundle version : String) : Errand → String
  | push => deployment bundle version
  | check => ""

/-- What the device says to it. -/
def answer (bundle version : String) : Errand → String
  | push => "ok"
  | check => "version=" ++ arriving bundle version

/-- The fault of a check that finds another version. -/
def misreport (target reported expected : String) : Fault :=
  .stepFailure (target ++ " reports version " ++ Text.quoted reported ++ ", expected " ++ expected)

/-- How an attempt goes on when it learns what its command came to. -/
def next (target version : String) : Errand → Outcome → Program Stepping (Except Fault Unit)
  | _, .error fault => .done (.error fault)
  | push, .ok reply => .done (checkAck "deploy" reply)
  | check, .ok reply =>
    if reportedVersion reply ≠ version then
      .done (.error (misreport target (reportedVersion reply) version))
    else keepVersion target version

/-- What an attempt does. -/
def program (target bundle version : String) (timeout : Nat) (errand : Errand) :
    Program Stepping (Except Fault Unit) :=
  (Stepping.request errand.command (Text.utf8 (errand.payload bundle version)) timeout).bind
    (errand.next target version)

/-- A deployment pushes its bundle. -/
theorem deploy_eq {ctx : StepContext} {bundle version : String}
    (hbundle : ctx.property? "bundle" = some bundle)
    (hversion : ctx.property? "version" = some version) :
    deploy ctx = program ctx.target bundle version ctx.config.requestTimeout .push := by
  rw [deploy, StepContext.require, hbundle, StepContext.require, hversion, program]
  refine congrArg (Program.bind _) ?_
  funext outcome
  cases outcome <;> rfl

/-- A check asks for the version and keeps it if it is the expected one. -/
theorem verify_eq {ctx : StepContext} (bundle : String) {version : String}
    (hversion : ctx.property? "version" = some version) :
    verify ctx = program ctx.target bundle version ctx.config.requestTimeout .check := by
  rw [verify, StepContext.require, hversion, program]
  refine congrArg (Program.bind _) ?_
  funext outcome
  cases outcome <;> rfl

/-- What is left of an attempt when the device has answered. -/
def rest (target bundle version : String) : Errand → Program Stepping (Except Fault Unit)
  | push => .done (.ok ())
  | check =>
    if arriving bundle version = version then keepVersion target version
    else .done (.error (misreport target (arriving bundle version) version))

/-- How an attempt goes on is decided by the answer of the device. -/
theorem next_of_answer (target : String) {bundle version : String} {reply : Response}
    (errand : Errand) (h : reply.text = errand.answer bundle version) :
    errand.next target version (.ok reply) = errand.rest target bundle version := by
  cases errand with
  | push =>
    have htext : reply.text = "ok" := h
    have hok : startsWith "error" "ok" = false := by decide
    rw [next, checkAck, htext, hok]
    rfl
  | check =>
    have htext : reply.text = "version=" ++ arriving bundle version := h
    have hread := get?_version_reply (survives_arriving bundle version)
    have hreported : reportedVersion reply = arriving bundle version := by
      rw [reportedVersion, htext, hread, Option.getD_some]
    rw [next, hreported, rest]
    by_cases hsame : arriving bundle version = version
    · rw [if_neg (not_not_intro hsame), if_pos hsame]
    · rw [if_pos hsame, if_neg hsame]

end Errand

namespace Fleet

open Rollout

variable {f g : Fleet} {id : JobId} {target : String}

/-- What is left of a request when its command has been sent. -/
def awaiting : Except Fault CorrelationKey → Program Stepping Outcome
  | .error fault => .done (.error fault)
  | .ok key => Stepping.await key

/-- A request is sent, and then its outcome is awaited. -/
theorem run_request (f : Fleet) (id : JobId) (target command : String) (payload : Bytes)
    (timeout : Nat) (next : Outcome → Program Stepping (Except Fault Unit)) :
    f.run id target ((Stepping.request command payload timeout).bind next) =
      match f.send ⟨target, command, payload, some id⟩ timeout with
      | (.error fault, g) => g.run id target (next (.error fault))
      | (.ok handle, g) => g.run id target (.ask (S := Stepping) (.await handle.key) next) := by
  have hsend : f.run id target ((Stepping.request command payload timeout).bind next) =
      run id target ((awaiting ((f.send ⟨target, command, payload, some id⟩ timeout).1.map
        Handle.key)).bind next) (f.send ⟨target, command, payload, some id⟩ timeout).2 := rfl
  rw [hsend]
  generalize f.send ⟨target, command, payload, some id⟩ timeout = r
  obtain ⟨result, g⟩ := r
  cases result <;> rfl

/-- Who awaits the outcome of a request goes on with it if there is one. -/
theorem run_await (f : Fleet) (id : JobId) (target : String) (key : CorrelationKey)
    (next : Outcome → Program Stepping (Except Fault Unit)) :
    f.run id target (.ask (S := Stepping) (.await key) next) =
      match f.correlator.outcome? key with
      | some outcome => f.run id target (next outcome)
      | none => (.inl (.reply key next), f) := by
  cases h : f.correlator.outcome? key with
  | none =>
    conv => lhs; unfold run
    rw [h]
  | some outcome =>
    conv => lhs; unfold run
    rw [h]

/-- The fleet when one more transaction has been opened. -/
def withTx (f : Fleet) : Fleet :=
  { f with transactions := { f.transactions with opened := f.transactions.opened + 1 } }

/-- That transaction, when the version of a device has been put into it. -/
def versionTx (f : Fleet) (target expected : String) : Tx :=
  (Tx.new (f.transactions.opened + 1) f.now).put (versionKey target) (Text.utf8 expected)

/-- To keep a version is to commit it, and to go on as the store answers. -/
theorem run_keepVersion_eq (f : Fleet) (id : JobId) (target expected : String) :
    f.run id target (keepVersion target expected) =
      run id target (kept (f.withTx.answerStore (.commit (f.versionTx target expected))).1)
        (f.withTx.answerStore (.commit (f.versionTx target expected))).2 := by
  rw [keepVersion_eq]
  rfl

/-- A store that takes all commits takes the version that is kept. -/
theorem run_keepVersion (hf : f.transactions.store.TakesCommits) (id : JobId)
    (target expected : String) :
    ∃ tx m, f.run id target (keepVersion target expected) =
        (.inr (.ok ()), { f.chronicled (.committed tx [.put (versionKey target)
          (Text.utf8 expected)]) with transactions := m }) ∧
      m.store.outages = f.transactions.store.outages ∧
      m.store.store =
        f.transactions.store.store.apply (.put (versionKey target) (Text.utf8 expected)) := by
  have hopened : f.withTx.transactions.store.TakesCommits := hf
  have hreads : (f.versionTx target expected).reads = ∅ := rfl
  obtain ⟨m, hanswer, houtages, hstore⟩ := answerStore_commit hopened hreads
  refine ⟨(f.versionTx target expected).id, m, ?_, houtages, hstore⟩
  rw [run_keepVersion_eq, hanswer]
  rfl

/-- A program that is over but for a version never waits. -/
theorem run_closing {program : Program Stepping (Except Fault Unit)}
    (h : Closing target program) (id : JobId) (f : Fleet) :
    ∃ result, (f.run id target program).1 = .inr result := by
  cases h with
  | finished result => exact ⟨result, rfl⟩
  | keeps expected =>
    rw [run_keepVersion_eq]
    generalize f.withTx.answerStore (.commit (f.versionTx target expected)) = r
    obtain ⟨answer, g⟩ := r
    cases answer <;> exact ⟨_, rfl⟩

/-- A brief program waits for the reply to its command at most. -/
theorem run_brief {program : Program Stepping (Except Fault Unit)} (h : Brief target program)
    {s : Suspension (Except Fault Unit)} (hs : (f.run id target program).1 = .inl s) :
    ∃ key next, s = .reply key next ∧ ∀ outcome, Closing target (next outcome) := by
  cases h with
  | finished result => cases hs
  | @asks command payload timeout next hnext =>
    rw [run_request] at hs
    generalize f.send ⟨target, command, payload, some id⟩ timeout = r at hs
    obtain ⟨result, g⟩ := r
    cases result with
    | error fault =>
      obtain ⟨result, hover⟩ := run_closing (hnext (.error fault)) id g
      cases hover.symm.trans hs
    | ok handle =>
      dsimp only at hs
      rw [run_await] at hs
      split at hs
      · next outcome _ =>
        obtain ⟨result, hover⟩ := run_closing (hnext outcome) id g
        cases hover.symm.trans hs
      · cases hs
        exact ⟨handle.key, next, rfl, hnext⟩

end Fleet

namespace JobEntry

open Rollout

variable {e e' : JobEntry} {f : Fleet} {id : JobId}

/-- The target of a job stays what it is. -/
theorem target_of_brings (hbrings : (e.work f id).Brings f id e e') :
    e'.job.target = e.job.target := by
  cases proceeds_of_brings hbrings with
  | kept h => exact h.target
  | completed _ h => exact h.target

/-- A worker that has only steps in hand whose attempts are brief. -/
structure Brief (e : JobEntry) : Prop where
  definition : ∀ run, e.stage.run? = some run → run.definition.Brief
  acting : ∀ run program, e.stage = .acting run program → Rollout.Brief e.job.target program
  waiting : ∀ run s, e.stage = .waiting run s →
    ∃ key next, s = .reply key next ∧ ∀ outcome, Closing e.job.target (next outcome)

/-- A new job has no step in hand. -/
theorem brief_new (job : Job) : (JobEntry.new job).Brief := ⟨nofun, nofun, nofun⟩

/-- Marks do not change what is in hand. -/
theorem Brief.same (h : e.Brief) (hsame : e.Same e') : e'.Brief where
  definition := by
    rw [hsame.stage]
    exact h.definition
  acting := by
    rw [hsame.stage, hsame.job]
    exact h.acting
  waiting := by
    rw [hsame.stage, hsame.job]
    exact h.waiting

/-- The program that a worker runs is brief. -/
theorem Brief.perform (h : e.Brief) {run : StepRun}
    {program : Program Stepping (Except Fault Unit)} (hwork : e.work f id = .perform run program) :
    Rollout.Brief e.job.target program ∨ Closing e.job.target program := by
  rcases (perform_cases hwork).2 with hstage | ⟨s, hstage, hresume⟩
  · exact Or.inl (h.acting run program hstage)
  · obtain ⟨key, next, rfl, hnext⟩ := h.waiting run s hstage
    obtain ⟨outcome, rfl⟩ := Fleet.resumes_of_resume? hresume
    exact Or.inr (hnext outcome)

/-- A turn leaves a worker with brief steps in hand. -/
theorem Brief.brings (h : e.Brief) (hregistry : f.registry.All StepDefinition.Brief)
    (hbrings : (e.work f id).Brings f id e e') : e'.Brief where
  definition run hrun := by
    cases takes_of_brings hbrings hrun with
    | kept hbefore _ => exact h.definition run hbefore
    | chosen _ _ hlookup hrun _ =>
      rw [hrun]
      exact hregistry _ _ hlookup
  acting run program hstage := by
    obtain ⟨hstart, rfl⟩ := acting_of_brings hbrings hstage
    cases hstage
    have hdefinition := h.definition _ (by rw [hstart]; rfl)
    exact hdefinition (({ e with
      snapshot := f.stamped e.job.beginAttempt
      job := f.stamped e.job.beginAttempt } : JobEntry).context f.config _)
  waiting run s hstage := by
    rw [target_of_brings hbrings]
    rcases waiting_of_brings hbrings hstage with rfl | ⟨program, e₁, hwork, -, hresult, -⟩
    · exact h.waiting run s hstage
    · rcases h.perform hwork with hbrief | hclosing
      · exact Fleet.run_brief hbrief hresult
      · obtain ⟨result, hover⟩ := Fleet.run_closing hclosing id f
        cases hover.symm.trans hresult

end JobEntry

end Flotilla
