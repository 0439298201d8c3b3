import Flotilla.Proofs.Rollout.Liveness
import Mathlib.Data.Nat.Pairing

/-!
# How a rollout ends

A device is to get a version, and then to report it. Exactly the versions without semicolons and
without white space around them get there, so these are the ones that end up on the device and on
record; any other is found out at the check, and what is on record is never touched
(`Fleet.completes_iff_survives`). In a fair run it comes to that. There are such runs
(`Fleet.fairlySheltered_thenRoundRobin`): when a fleet has come to rest, all tasks can take turns
for ever.
-/

namespace Flotilla

namespace Fleet

open Rollout Errand

variable {config : Config} {registry : Registry} {store : UnreliableStore} {d : Device}
  {bundle version : String} {retry : Errand → Option RetryPolicy} {f g : Fleet} {e : JobEntry}
  {σ : Nat → Fleet}

/-- What a rollout has come to whose worker has left. -/
structure Concluded (d : Device) (version : String) (f g : Fleet) (e : JobEntry) : Prop where
  done : e.done = true
  archived : e.archived = true
  committed : (g.commitsOf f.nextId).getLast? = some e.snapshot.toRecord.toBytes
  rolledOut_iff : RolledOut d version g e ↔ Fields.Survives version
  foundOut : ¬Fields.Survives version → FoundOut e

/-- A rollout whose worker has left has come to its conclusion. -/
theorem Rolling.concluded (h : Rolling d config bundle version retry f g)
    (hready : Ready d config store registry f) (he : g.jobs.get? f.nextId = some e)
    (hgone : e.stage = .gone) : Concluded d version f g e := by
  obtain ⟨hdone, harchived, -, hcommitted⟩ := h.ended hready he hgone
  have hfoundOut (hlost : ¬Fields.Survives version) : FoundOut e :=
    h.foundOut hready he hgone ((arriving_eq_iff bundle version).not.2 hlost)
  refine ⟨hdone, harchived, hcommitted, ⟨fun hrolled => ?_, fun hsurvives => ?_⟩, hfoundOut⟩
  · by_contra hlost
    cases hrolled.state.symm.trans (hfoundOut hlost).state
  · exact h.rolledOut hready he hgone ((arriving_eq_iff bundle version).2 hsurvives)

/-- A fair run of a sheltered fleet, in which keys and numbers last. -/
structure FairlySheltered (d : Device) (f : Fleet) (σ : Nat → Fleet) : Prop where
  start : σ 0 = f
  steps : ∀ n, Sheltered d (σ n) (σ (n + 1))
  fair : Fair σ
  keys : ∀ n, (σ n).correlator.sent < 2 ^ 64
  numbers : ∀ n, (σ n).submitted < 2 ^ 64

/-- A row of sheltered steps is a run. -/
theorem shelteredRun_of_steps (hsteps : ∀ n, Sheltered d (σ n) (σ (n + 1))) {n m : Nat}
    (hm : n ≤ m) : ShelteredRun d (σ n) (σ m) := by
  induction m, hm using Nat.le_induction with
  | base => exact .refl
  | succ m _ ih => exact ih.tail (hsteps m)

private theorem FairlySheltered.run (h : FairlySheltered d f σ) (n : Nat) :
    ShelteredRun d f (σ n) :=
  h.start ▸ shelteredRun_of_steps h.steps (Nat.zero_le n)

/-- A rollout is accepted. If the version survives being sent, the job completes with the version on
the device and on record, and otherwise it fails at the check, and what is on record of the version
stays as it is all the time. As long as there are permits for jobs, it comes to one or the other in
every fair run. -/
theorem completes_iff_survives (h : Ready d config store registry f) (bundle version : String)
    (retry : Errand → Option RetryPolicy) :
    (∀ g, ShelteredRun d (f.submit d.id (steps bundle version retry)).2 g →
      g.correlator.sent < 2 ^ 64 → g.submitted < 2 ^ 64 →
      (f.submit d.id (steps bundle version retry)).1 = .ok f.nextId ∧
      (¬Fields.Survives version → g.versionOf d = f.versionOf d) ∧
      ∃ e, g.jobs.get? f.nextId = some e ∧
        (e.stage = .gone → Concluded d version f g e)) ∧
    (config.maxConcurrentJobs ≠ 0 →
      ∀ σ, FairlySheltered d (f.submit d.id (steps bundle version retry)).2 σ →
        ∃ n e, (σ n).jobs.get? f.nextId = some e ∧ e.stage = .gone ∧
          Concluded d version f (σ n) e) := by
  refine ⟨fun g hrun hsent hlt => ?_, fun hpermits σ hσ => ?_⟩
  · have hrolling := h.rolling hrun hsent hlt
    obtain ⟨e, he, -⟩ := hrolling.progress
    refine ⟨hrolling.accepted, fun hlost => ?_, e, he, hrolling.concluded h he⟩
    exact hrolling.untouched ((arriving_eq_iff bundle version).not.2 hlost)
  · obtain ⟨n, e, he, hgone⟩ := h.leaves hpermits hσ.start hσ.steps hσ.fair hσ.keys hσ.numbers
    have hrolling := h.rolling (hσ.run n) (hσ.keys n) (hσ.numbers n)
    exact ⟨n, e, he, hgone, hrolling.concluded h he hgone⟩

end Fleet

/-- A worker that has left. -/
def Stage.isGone : Stage → Bool
  | .gone => true
  | _ => false

private theorem Stage.isGone_iff {s : Stage} : s.isGone = true ↔ s = .gone := by
  cases s <;> simp [isGone]

namespace Correlator

/-- When nothing is pending, nothing times out. -/
theorem expire_all_of_none {c : Correlator} (h : ∀ key, c.pending.get? key = none)
    (fired : List (CorrelationKey × Unit)) : fired.foldl (fun c e => c.expire e.1) c = c := by
  induction fired with
  | nil => rfl
  | cons e fired ih =>
    rw [List.foldl_cons, expire, h]
    exact ih

end Correlator

namespace Fleet

open Rollout Errand

variable {d : Device} {f g : Fleet} {σ : Nat → Fleet}

/-- A fleet in which nobody has anything to do any more. -/
structure AtRest (f : Fleet) : Prop where
  inbox : f.broker.inbox = []
  opened : f.broker.closed = false
  correlating : f.correlating = true
  pending : ∀ key, f.correlator.pending.get? key = none
  responders : ∀ r ∈ f.responders, r.stage = .gone
  callers : f.callers = ∅
  jobs : ∀ e ∈ f.jobs.values, e.stage.isGone = true

private theorem AtRest.inTime (h : f.AtRest) : f.InTime d := by
  intro key request deadline hpending
  cases (h.pending key).symm.trans hpending

private theorem AtRest.pass (h : f.AtRest) (time : Nat) :
    AtRest { f with now := time } := { h with }

/-- No turn wakes anybody up. -/
theorem AtRest.turn (h : f.AtRest) (task : Task) :
    (f.turn task).fleet.AtRest ∧ (f.turn task).fleet.now = f.now ∧
      (f.turn task).fleet.correlator.sent = f.correlator.sent ∧
      (f.turn task).fleet.submitted = f.submitted := by
  cases task with
  | delivery =>
    rw [Fleet.turn, fleet_deliveryTurn_of_nil h.opened h.inbox]
    exact ⟨{ h with }, rfl, rfl, rfl⟩
  | supervisor =>
    obtain ⟨agenda, hset⟩ := f.setCorrelator_eq (f.correlator.pollDeadlines f.now)
    have hpolled : f.correlator.pollDeadlines f.now =
        { f.correlator with supervisor := (f.correlator.supervisor.poll f.now).2 } :=
      Correlator.expire_all_of_none
        (c := { f.correlator with supervisor := (f.correlator.supervisor.poll f.now).2 })
        h.pending _
    rw [Fleet.turn, Fleet.supervisorTurn, if_pos h.correlating, hset, hpolled]
    dsimp only
    split <;> exact ⟨{ h with }, rfl, rfl, rfl⟩
  | watcher =>
    rw [Fleet.turn, watcherTurn, if_neg (by rw [h.opened]; exact Bool.false_ne_true)]
    exact ⟨h, rfl, rfl, rfl⟩
  | reader =>
    rw [Fleet.turn, readerTurn_eq]
    exact ⟨{ h with }, rfl, rfl, rfl⟩
  | responder index =>
    rw [Fleet.turn, responderTurn_of_gone fun r hr =>
      h.responders r (List.mem_of_getElem? hr)]
    exact ⟨h, rfl, rfl, rfl⟩
  | caller number =>
    rw [Fleet.turn, callerTurn, h.callers]
    exact ⟨h, rfl, rfl, rfl⟩
  | worker job =>
    have hturn : (f.workerTurn job).fleet = f := by
      cases he : f.jobs.get? job with
      | none => exact workerTurn_of_none he
      | some e =>
        have hmem := List.mem_map_of_mem (f := Prod.snd) ((Table.get?_eq_some_iff ..).1 he)
        rw [workerTurn, he]
        dsimp only
        rw [Stage.isGone_iff.1 (h.jobs e hmem)]
        rfl
    rw [Fleet.turn, hturn]
    exact ⟨h, rfl, rfl, rfl⟩

end Fleet

/-- The tasks by their kind and their index. -/
def Task.ofCode : Nat → Nat → Task
  | 0, _ => .delivery
  | 1, _ => .supervisor
  | 2, _ => .watcher
  | 3, _ => .reader
  | 4, index => .responder index
  | 5, number => .caller number
  | _, job => .worker (UInt64.ofNat job)

private theorem Task.exists_ofCode (task : Task) : ∃ kind index, Task.ofCode kind index = task := by
  cases task with
  | delivery => exact ⟨0, 0, rfl⟩
  | supervisor => exact ⟨1, 0, rfl⟩
  | watcher => exact ⟨2, 0, rfl⟩
  | reader => exact ⟨3, 0, rfl⟩
  | responder index => exact ⟨4, index, rfl⟩
  | caller number => exact ⟨5, number, rfl⟩
  | worker job => exact ⟨6, job.toNat, congrArg Task.worker UInt64.ofNat_toNat⟩

/-- A row in which every task stands again and again. -/
def Task.inTurn (n : Nat) : Task :=
  Task.ofCode n.unpair.2.unpair.1 n.unpair.2.unpair.2

/-- Every task is in turn again and again. -/
theorem Task.exists_inTurn (task : Task) (n : Nat) : ∃ m ≥ n, Task.inTurn m = task := by
  obtain ⟨kind, index, htask⟩ := task.exists_ofCode
  refine ⟨Nat.pair n (Nat.pair kind index), Nat.left_le_pair .., ?_⟩
  rw [inTurn, Nat.unpair_pair]
  dsimp only
  rw [Nat.unpair_pair]
  exact htask

namespace Fleet

open Rollout Errand

variable {d : Device} {f g : Fleet} {σ : Nat → Fleet}

/-- All tasks take turns for ever, and time passes before each turn. -/
def roundRobin (f : Fleet) : Nat → Fleet
  | 0 => f
  | n + 1 =>
    if n % 2 = 0 then { roundRobin f n with now := (roundRobin f n).now + 1 }
    else ((roundRobin f n).turn (Task.inTurn (n / 2))).fleet

private theorem roundRobin_turn (f : Fleet) (n : Nat) : roundRobin f (2 * n + 1 + 1) =
    ((roundRobin f (2 * n + 1)).turn (Task.inTurn n)).fleet := by
  have hodd : ¬(2 * n + 1) % 2 = 0 := by omega
  have hhalf : (2 * n + 1) / 2 = n := by omega
  rw [roundRobin, if_neg hodd, hhalf]

/-- A fleet at rest stays at rest while tasks take turns and time passes. -/
theorem AtRest.roundRobin (h : f.AtRest) (n : Nat) :
    (f.roundRobin n).AtRest ∧ (n + 1) / 2 ≤ (f.roundRobin n).now ∧
      (f.roundRobin n).correlator.sent = f.correlator.sent ∧
      (f.roundRobin n).submitted = f.submitted := by
  induction n with
  | zero => exact ⟨h, Nat.zero_le _, rfl, rfl⟩
  | succ n ih =>
    obtain ⟨hrest, hnow, hsent, hsubmitted⟩ := ih
    rw [Fleet.roundRobin]
    split
    · refine ⟨hrest.pass _, ?_, hsent, hsubmitted⟩
      dsimp only
      omega
    · obtain ⟨hrest', hnow', hsent', hsubmitted'⟩ := hrest.turn (Task.inTurn (n / 2))
      refine ⟨hrest', ?_, hsent'.trans hsent, hsubmitted'.trans hsubmitted⟩
      rw [hnow']
      omega

/-- The turns of tasks of a fleet at rest are sheltered. -/
theorem AtRest.sheltered_roundRobin (h : f.AtRest) (n : Nat) :
    Sheltered d (f.roundRobin n) (f.roundRobin (n + 1)) := by
  rw [Fleet.roundRobin]
  split
  · exact .pass _ (Nat.le_succ _)
  · exact .turn _ fun _ => (h.roundRobin n).1.inTime

/-- Tasks take turns as they are listed, and then all of them for ever. -/
def thenRoundRobin (f : Fleet) (tasks : List Task) (n : Nat) : Fleet :=
  (f.turns (tasks.take n)).roundRobin (n - tasks.length)

private theorem thenRoundRobin_zero (f : Fleet) (tasks : List Task) :
    f.thenRoundRobin tasks 0 = f := by
  rw [thenRoundRobin, Nat.zero_sub]
  rfl

private theorem thenRoundRobin_add (f : Fleet) (tasks : List Task) (n : Nat) :
    f.thenRoundRobin tasks (tasks.length + n) = (f.turns tasks).roundRobin n := by
  rw [thenRoundRobin, List.take_of_length_le (Nat.le_add_right ..), Nat.add_sub_cancel_left]

private theorem thenRoundRobin_of_lt (f : Fleet) {tasks : List Task} {n : Nat} (h :
    n < tasks.length) :
    f.thenRoundRobin tasks (n + 1) = ((f.thenRoundRobin tasks n).turn tasks[n]).fleet := by
  rw [thenRoundRobin, thenRoundRobin, Nat.sub_eq_zero_of_le h,
    Nat.sub_eq_zero_of_le (Nat.le_of_lt h),
    List.take_succ_eq_append_getElem h]
  exact List.foldl_concat ..

/-- A fleet that comes to rest in some turns, without the supervisor of the deadlines, has a fair
run. -/
theorem fairlySheltered_thenRoundRobin {tasks : List Task} (hf : f.Rooted)
    (hrest : (f.turns tasks).AtRest) (htasks : Task.supervisor ∉ tasks)
    (hkeys : (f.turns tasks).correlator.sent < 2 ^ 64)
    (hnumbers : (f.turns tasks).submitted < 2 ^ 64) :
    FairlySheltered d f (f.thenRoundRobin tasks) := by
  have hsteps (n : Nat) :
      Sheltered d (f.thenRoundRobin tasks n) (f.thenRoundRobin tasks (n + 1)) := by
    rcases Nat.lt_or_ge n tasks.length with hlt | hle
    · rw [thenRoundRobin_of_lt f hlt]
      refine .turn _ fun hsupervisor => ?_
      exact (htasks (hsupervisor ▸ List.getElem_mem hlt)).elim
    · obtain ⟨k, rfl⟩ := Nat.exists_eq_add_of_le hle
      rw [Nat.add_assoc, thenRoundRobin_add, thenRoundRobin_add]
      exact hrest.sheltered_roundRobin k
  have hlater (n : Nat) : Steady (f.thenRoundRobin tasks n) ((f.turns tasks).roundRobin n) := by
    have hrun := thenRoundRobin_zero f tasks ▸ shelteredRun_of_steps hsteps (Nat.zero_le n)
    have hthen := shelteredRun_of_steps hsteps (Nat.le_add_left n tasks.length)
    rw [thenRoundRobin_add] at hthen
    exact ShelteredRun.steady hthen (ShelteredRun.steady hrun hf).rooted
  refine ⟨thenRoundRobin_zero f tasks, hsteps,
    ⟨fun task n => ?_, fun time => ⟨tasks.length + 2 * time, fun m hm => ?_⟩⟩,
    fun n => ?_, fun n => ?_⟩
  · obtain ⟨k, hk, rfl⟩ := Task.exists_inTurn task n
    refine ⟨tasks.length + (2 * k + 1), by omega, ?_⟩
    rw [Nat.add_assoc, thenRoundRobin_add, thenRoundRobin_add, roundRobin_turn]
  · obtain ⟨k, rfl⟩ := Nat.exists_eq_add_of_le (Nat.le_of_add_right_le hm)
    rw [thenRoundRobin_add]
    have hnow := (hrest.roundRobin k).2.1
    omega
  · obtain ⟨-, -, hsent, -⟩ := hrest.roundRobin n
    exact Nat.lt_of_le_of_lt (hlater n).sent (hsent ▸ hkeys)
  · obtain ⟨-, -, -, hsubmitted⟩ := hrest.roundRobin n
    exact Nat.lt_of_le_of_lt (hlater n).submitted (hsubmitted ▸ hnumbers)

/-- A device that runs version 1.0. -/
def edgeDevice : Device := .new "edge-1" "fleet" "1.0" 0

/-- A fleet with that device. -/
def edgeFleet : Fleet := attached .standard (.new []) rolloutRegistry edgeDevice

/-- The fleet when another version is to be rolled out. -/
def edgeRollout (version : String) : Fleet :=
  (edgeFleet.submit "edge-1" (steps "firmware.bin" version fun _ => some .once)).2

/-- The turns in which the command of an errand gets to the device and its answer back. -/
def exchange (index : Nat) : List Task := [.delivery, .responder index, .delivery]

/-- The turns in which the rollout comes to its end. -/
def edgeTurns : List Task :=
  List.replicate 5 (.worker 1) ++ exchange 0 ++ List.replicate 5 (.worker 1) ++ exchange 1 ++
    List.replicate 8 (.worker 1)

/-- A fleet with one device and the steps of a rollout is ready. -/
theorem ready_edgeFleet : Ready edgeDevice .standard (.new []) rolloutRegistry edgeFleet where
  willing := ⟨rfl, ⟨by decide, by decide, by decide, by decide⟩, rfl, rfl⟩
  takes _ ho := absurd ho List.not_mem_nil
  registered := rfl
  run := .refl

/-- What is to be seen of a fleet at rest in which keys and numbers last. -/
theorem AtRest.of_checks (h : f.broker.inbox = [] ∧ f.broker.closed = false ∧
    f.correlating = true ∧ f.correlator.pending = ∅ ∧ (∀ r ∈ f.responders, r.stage = .gone) ∧
    f.callers = ∅ ∧ (∀ e ∈ f.jobs.values, e.stage.isGone = true) ∧
    f.correlator.sent < 2 ^ 64 ∧ f.submitted < 2 ^ 64) :
    f.AtRest ∧ f.correlator.sent < 2 ^ 64 ∧ f.submitted < 2 ^ 64 := by
  obtain ⟨hinbox, hopened, hcorrelating, hpending, hresponders, hcallers, hjobs, hlast⟩ := h
  refine ⟨⟨hinbox, hopened, hcorrelating, fun key => ?_, hresponders, hcallers, hjobs⟩, hlast⟩
  rw [hpending]
  rfl

/-- The rollout is worked off, and then tasks take turns for ever. -/
theorem fairlySheltered_edgeRollout {version : String}
    (hversion : version = "2.0" ∨ version = "2.0 ") :
    FairlySheltered edgeDevice (edgeRollout version)
      ((edgeRollout version).thenRoundRobin edgeTurns) := by
  have hsubmit : Step (fun key => ¬IsJobKey key) edgeFleet (edgeRollout version) :=
    .submit "edge-1" (steps "firmware.bin" version fun _ => some .once)
  have hfleet : edgeFleet.Rooted := ready_edgeFleet.rooted
  have hleads : Leads edgeFleet (edgeRollout version) := hsubmit.leads hfleet
  have hrooted : (edgeRollout version).Rooted := hleads.rooted hfleet
  obtain ⟨hrest, hkeys, hnumbers⟩ :
      ((edgeRollout version).turns edgeTurns).AtRest ∧
        ((edgeRollout version).turns edgeTurns).correlator.sent < 2 ^ 64 ∧
        ((edgeRollout version).turns edgeTurns).submitted < 2 ^ 64 := by
    apply AtRest.of_checks
    rcases hversion with rfl | rfl <;> decide +kernel
  exact fairlySheltered_thenRoundRobin hrooted hrest (by decide) hkeys hnumbers

/-- Version 2.0 gets to the device. With a blank behind it, it is found out, and nothing is ever on
record. -/
theorem completes_iff_survives_edgeFleet :
    (∃ n e, ((edgeRollout "2.0").thenRoundRobin edgeTurns n).jobs.get? 1 = some e ∧
      RolledOut edgeDevice "2.0" ((edgeRollout "2.0").thenRoundRobin edgeTurns n) e) ∧
    (∃ n e, ((edgeRollout "2.0 ").thenRoundRobin edgeTurns n).jobs.get? 1 = some e ∧
      FoundOut e) ∧
    ∀ n, ((edgeRollout "2.0 ").thenRoundRobin edgeTurns n).versionOf edgeDevice = none := by
  have hpermits : Config.standard.maxConcurrentJobs ≠ 0 := by decide
  obtain ⟨-, hends⟩ :=
    completes_iff_survives ready_edgeFleet "firmware.bin" "2.0" fun _ => some .once
  obtain ⟨hruns, hends'⟩ :=
    completes_iff_survives ready_edgeFleet "firmware.bin" "2.0 " fun _ => some .once
  have hgood := fairlySheltered_edgeRollout (Or.inl (Eq.refl "2.0"))
  have hbad := fairlySheltered_edgeRollout (Or.inr (Eq.refl "2.0 "))
  have hlost : ¬Fields.Survives "2.0 " := by decide
  obtain ⟨n, e, he, -, hconcluded⟩ := hends hpermits _ hgood
  obtain ⟨n', e', he', -, hconcluded'⟩ := hends' hpermits _ hbad
  refine ⟨⟨n, e, he, hconcluded.rolledOut_iff.2 (by decide)⟩,
    ⟨n', e', he', hconcluded'.foundOut hlost⟩, fun m => ?_⟩
  exact (hruns _ (hbad.run m) (hbad.keys m) (hbad.numbers m)).2.1 hlost

end Fleet

end Flotilla
