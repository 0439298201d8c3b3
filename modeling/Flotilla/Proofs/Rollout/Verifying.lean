import Flotilla.Proofs.Rollout.Checking
import Flotilla.Proofs.Rollout.Shelter

/-!
# Versions that are vouched for

Whatever happens to a fleet with the steps of a rollout, a version of a device is committed only by
an attempt at a check for it. The attempt has asked the device for its status, and the reply came in
on the topic of the device, under the key of the request and while it waited (`Fleet.Vouches`).
Other messages, whenever and wherever they come in, do not bring a version about
(`Fleet.versions_vouched`).
-/

namespace Flotilla

/-- The version that a message reports, if it reports one. -/
def Message.version? (m : Message) : Option String :=
  (Fields.parse (Text.lossy m.payload)).get? "version"

/-- What a check makes of a reply is what the reply reports, unless that is nothing. -/
theorem Message.version?_eq_some_iff (m : Message) {version : String}
    (h : m.version?.getD "" = version) :
    m.version? = some version ↔ version ≠ "" ∨ m.version? ≠ none := by
  cases hversion : m.version? with
  | none =>
    rw [hversion] at h
    subst h
    simp
  | some reported =>
    rw [hversion] at h
    subst h
    simp

namespace Fleet

open Ledger (nthKey nthKey_injective)
open Rollout

variable {config : Config} {store : UnreliableStore} {registry : Registry} {σ : Nat → Fleet}
  {f g : Fleet} {id : JobId} {e : JobEntry} {key : CorrelationKey} {n : Nat}

/-- An attempt of the job at a check for the version asks the device for its status. -/
structure Asks (job : Job) (version : String) (key : CorrelationKey) (f g : Fleet) : Prop where
  turn : g = (f.workerTurn job.id).fleet
  attempt : ∃ e run program, f.jobs.get? job.id = some e ∧ e.job = job ∧
    e.stage = .acting run program
  verifies : job.Verifies version
  key_eq : key = nthKey f.correlator.sent
  sent : g.correlator.sent = f.correlator.sent + 1
  published : ∃ m, g.chronicle = f.chronicle ++ [(f.now, .published m)] ∧
    m.topic = f.config.commandTopic job.target "status" ∧ m.correlationId = key
  waits : g.correlator.pending.get? key = some (job.inquiry f.config)

/-- A row of steps from the start of a fleet with the steps of a rollout. Anything may be asked of
the fleet, any message may come in, and anything may be written from outside. -/
structure Passage (config : Config) (store : UnreliableStore) (registry : Registry)
    (σ : Nat → Fleet) (n : Nat) : Prop where
  rollout : register .empty = .ok registry
  start : σ 0 = opened config store registry
  steps : ∀ k < n, Loose (σ k) (σ (k + 1))

/-- A check of the job vouches for the version at its turn at moment `n`: at moment `i` it asked the
device, and at moment `j` the reply came in while the request waited. The reply reports the version,
unless the version is empty and the reply reports none. -/
inductive Vouches (σ : Nat → Fleet) (n : Nat) (job : Job) (version : String) : Prop
  | intro {i j : Nat} {key : CorrelationKey} {m : Message}
    (asks : Asks job version key (σ i) (σ (i + 1)))
    (replies : Replies key (job.inquiry (σ j).config) m (σ j) (σ (j + 1)))
    (asked_first : i < j) (replied_before : j < n)
    (turn : σ (n + 1) = ((σ n).workerTurn job.id).fleet)
    (reports_iff : m.version? = some version ↔ version ≠ "" ∨ m.version? ≠ none)

/-- What a step has to do with the versions of devices. -/
structure Vouched (σ : Nat → Fleet) (n : Nat) : Prop where
  /-- Whatever is committed under the key of a version is a version that a check of a job for the
  device vouches for. -/
  commits : ∃ events, (σ (n + 1)).chronicle = (σ n).chronicle ++ events ∧
    ∀ time tx writes, (time, .committed tx writes) ∈ events → ∀ target, ∀ w ∈ writes,
      w.key = versionKey target → ∃ job version, job.target = target ∧
        w = .put (versionKey target) (Text.utf8 version) ∧ Vouches σ n job version
  /-- The record of a version changes to such a version, or it is written from outside. -/
  records : ∀ target, (σ (n + 1)).transactions.store.store.read (versionKey target) ≠
      (σ n).transactions.store.store.read (versionKey target) →
    (∃ job version record, job.target = target ∧ Vouches σ n job version ∧
      (σ (n + 1)).transactions.store.store.read (versionKey target) = some record ∧
      record.value = Text.utf8 version) ∨
    ∃ writes reads, σ (n + 1) = ((σ n).writeBehind writes reads).2 ∧
      ∃ w ∈ writes, w.key = versionKey target

/-- No step but a delivery answers a request. -/
theorem Loose.unanswered_or (h : Loose f g) (hf : f.Rooted) :
    Correlator.Unanswered f.correlator g.correlator ∨ g = f.deliveryTurn.fleet := by
  rcases h.routine_or with hroutine | hdelivery | ⟨id, rfl⟩ | ⟨writes, reads, rfl⟩
  · exact Or.inl hroutine.requests
  · exact Or.inr hdelivery
  · exact Or.inl (unanswered_workerTurn hf id)
  · exact Or.inl (.refl _)

/-- In every step, what waits has a key that was given out. -/
theorem Loose.numbered (h : Loose f g) (hf : f.Rooted) (hnumbered : f.correlator.Numbered) :
    g.correlator.Numbered := by
  rcases h.unanswered_or hf with hrequests | rfl
  · exact hrequests.numbered hnumbered
  · rcases f.offered_deliveryTurn with hsame | ⟨m, -, hoffered⟩
    · rwa [hsame]
    · exact hoffered.settles.numbered hnumbered

/-- A request is answered in a step only by the message that is delivered. -/
theorem Loose.replies (h : Loose f g) (hf : f.Rooted) {r : Response}
    (hr : g.correlator.outcome? key = some (.ok r)) :
    f.correlator.outcome? key = some (.ok r) ∨
      ∃ p m, Replies key p m f g ∧ r = m.response f.now := by
  rcases h.unanswered_or hf with hrequests | rfl
  · exact Or.inl (hrequests.outcome key r hr)
  · exact replies_of_deliveryTurn hr

/-- What waited waits on, or it has been settled. -/
theorem LooseRun.waits_on (h : LooseRun f g) (hf : f.Rooted) {p : Pending}
    (hp : f.correlator.pending.get? key = some p) :
    g.correlator.pending.get? key = some p ∨ (g.correlator.outcome? key).isSome := by
  induction h with
  | refl => exact Or.inl hp
  | tail hrun hlast ih =>
    obtain ⟨owner, hserves⟩ := hlast.serves (LooseRun.steady hrun hf).rooted
    rcases ih with hwaits | hsettled
    · exact hserves.kept key p hwaits
    · obtain ⟨outcome, houtcome⟩ := Option.isSome_iff_exists.1 hsettled
      exact Or.inr (Option.isSome_iff_exists.2 ⟨outcome, hserves.outcome key outcome houtcome⟩)

private theorem config_opened (config : Config) (store : UnreliableStore) (registry : Registry) :
    (opened config store registry).config = config := by
  obtain ⟨agenda, broker, correlating, held, hopened⟩ := opened_eq config store registry
  rw [hopened]
  rfl

private theorem correlator_opened (config : Config) (store : UnreliableStore) (registry :
    Registry) :
    (opened config store registry).correlator = .new config 0 := by
  obtain ⟨agenda, broker, correlating, held, hopened⟩ := opened_eq config store registry
  rw [hopened]
  rfl

namespace Passage

/-- The front of a passage is a passage. -/
theorem before (h : Passage config store registry σ n) {k : Nat} (hk : k ≤ n) :
    Passage config store registry σ k :=
  ⟨h.rollout, h.start, fun l hl => h.steps l (Nat.lt_of_lt_of_le hl hk)⟩

/-- A passage is a run between any two of its moments. -/
theorem between (h : Passage config store registry σ n) {k : Nat} (hk : k ≤ n) :
    LooseRun (σ k) (σ n) := by
  induction n, hk using Nat.le_induction with
  | base => exact .refl
  | succ n hk ih => exact (ih (h.before (Nat.le_succ n))).tail (h.steps n (Nat.lt_succ_self n))

/-- A passage is a run. -/
theorem run (h : Passage config store registry σ n) :
    LooseRun (opened config store registry) (σ n) :=
  h.start ▸ h.between (Nat.zero_le n)

private theorem steady (h : Passage config store registry σ n) :
    Steady (opened config store registry) (σ n) :=
  LooseRun.steady h.run (rooted_opened config store registry)

private theorem rooted (h : Passage config store registry σ n) : (σ n).Rooted := h.steady.rooted

private theorem config_eq (h : Passage config store registry σ n) : (σ n).config = config :=
  h.steady.config.trans (config_opened config store registry)

private theorem sent_le (h : Passage config store registry σ n) {k : Nat} (hk : k ≤ n) :
    (σ k).correlator.sent ≤ (σ n).correlator.sent :=
  (LooseRun.steady (h.between hk) (h.before hk).rooted).sent

/-- Topics are made with the settings of the fleet. -/
theorem terms (h : Passage config store registry σ n) : (σ n).correlator.config = config := by
  induction n with
  | zero =>
    rw [h.start, correlator_opened]
    rfl
  | succ n ih =>
    have hbefore := h.before (Nat.le_succ n)
    obtain ⟨owner, hserves⟩ := (h.steps n (Nat.lt_succ_self n)).serves hbefore.rooted
    exact hserves.config.trans (ih hbefore)

private theorem numbered (h : Passage config store registry σ n) : (σ n).correlator.Numbered := by
  induction n with
  | zero =>
    rw [h.start, correlator_opened]
    exact Correlator.numbered_new config 0
  | succ n ih =>
    have hbefore := h.before (Nat.le_succ n)
    exact (h.steps n (Nat.lt_succ_self n)).numbered hbefore.rooted (ih hbefore)

/-- Every reply that there is came in. -/
theorem replied (h : Passage config store registry σ n) {r : Response}
    (hr : (σ n).correlator.outcome? key = some (.ok r)) :
    ∃ j p m, j < n ∧ Replies key p m (σ j) (σ (j + 1)) ∧ r = m.response (σ j).now := by
  induction n with
  | zero =>
    rw [h.start, correlator_opened] at hr
    cases hr
  | succ n ih =>
    have hbefore := h.before (Nat.le_succ n)
    rcases (h.steps n (Nat.lt_succ_self n)).replies hbefore.rooted hr with
      hold | ⟨p, m, hreplies, hr⟩
    · obtain ⟨j, p, m, hj, hreplies⟩ := ih hbefore hold
      exact ⟨j, p, m, Nat.lt_succ_of_lt hj, hreplies⟩
    · exact ⟨n, p, m, Nat.lt_succ_self n, hreplies, hr⟩

/-- The key that is given out next has had no reply. -/
theorem unheard (h : Passage config store registry σ n)
    (hsent : (σ n).correlator.sent + 1 < 2 ^ 64) : (σ n).Unheard := by
  intro r hr
  obtain ⟨j, p, m, hj, hreplies, -⟩ := h.replied hr
  have hbefore := h.before (Nat.le_of_lt hj)
  obtain ⟨l, hl, hkey⟩ := hbefore.numbered _ p hreplies.waits
  have hle := h.sent_le (Nat.le_of_lt hj)
  have hsame := nthKey_injective hsent (by omega) hkey
  omega

/-- A request is answered after it was asked, and the request that is answered is the one that was
asked. -/
theorem replies_after (h : Passage config store registry σ n)
    (hsent : (σ n).correlator.sent + 1 < 2 ^ 64) {i j : Nat} {job : Job} {version : String}
    {p : Pending} {m : Message} (hi : i < n) (hj : j < n)
    (hasks : Asks job version key (σ i) (σ (i + 1)))
    (hreplies : Replies key p m (σ j) (σ (j + 1))) : i < j ∧ p = job.inquiry config := by
  have hij : i < j := by
    by_contra hle
    have hle := Nat.le_of_not_lt hle
    obtain ⟨l, hl, hkey⟩ := (h.before (Nat.le_of_lt hj)).numbered key p hreplies.waits
    have hji := (h.before (Nat.le_of_lt hi)).sent_le hle
    have hin := h.sent_le (Nat.le_of_lt hi)
    have hsame := nthKey_injective (by omega) (by omega) (hkey.symm.trans hasks.key_eq)
    omega
  refine ⟨hij, ?_⟩
  have hafter := h.before (Nat.succ_le_of_lt hi)
  have hrun := (h.before (Nat.le_of_lt hj)).between (Nat.succ_le_of_lt hij)
  rcases hrun.waits_on hafter.rooted hasks.waits with hwaits | hsettled
  · rw [(h.before (Nat.le_of_lt hi)).config_eq] at hwaits
    exact Option.some.inj (hreplies.waits.symm.trans hwaits)
  · rw [hreplies.unsettled] at hsettled
    cases hsettled

end Passage

/-- What is left of an attempt of the job that has to wait at moment `n`: nothing, when the reply to
its command is there, or a check that has asked the device for its status at an earlier moment. -/
inductive Awaits (σ : Nat → Fleet) (n : Nat) (job : Job) : Suspension (Except Fault Unit) → Prop
  | ordered (key : CorrelationKey) {next : Outcome → Program Stepping (Except Fault Unit)}
    (h : ∀ outcome, ∃ result, next outcome = .done result) : Awaits σ n job (.reply key next)
  | asked {version : String} {key : CorrelationKey} {i : Nat} (hi : i < n)
    (hasks : Asks job version key (σ i) (σ (i + 1))) :
    Awaits σ n job (.reply key (Errand.check.next job.target version))

private theorem Awaits.succ {job : Job} {s : Suspension (Except Fault Unit)} (h :
    Awaits σ n job s) :
    Awaits σ (n + 1) job s := by
  cases h with
  | ordered key hnext => exact .ordered key hnext
  | asked hi hasks => exact .asked (Nat.lt_succ_of_lt hi) hasks

/-- Who has waited does not wait again. -/
theorem Awaits.not_waits {job : Job} {s s' : Suspension (Except Fault Unit)}
    {program : Program Stepping (Except Fault Unit)} (h : Awaits σ n job s)
    (hresume : f.resume? s = some program) :
    (f.run id job.target program).1 ≠ .inl s' := by
  have hover : ∃ result, (f.run id job.target program).1 = .inr result := by
    cases h with
    | ordered key hnext =>
      obtain ⟨outcome, rfl⟩ := resumes_of_resume? hresume
      obtain ⟨result, hdone⟩ := hnext outcome
      exact ⟨result, by rw [hdone]; rfl⟩
    | asked =>
      obtain ⟨outcome, rfl⟩ := resumes_of_resume? hresume
      exact run_closing (closing_next_check _ _ outcome) id f
  obtain ⟨result, hresult⟩ := hover
  rw [hresult]
  nofun

/-- The beginning of an attempt that has to wait then. -/
theorem awaits_of_begun {run : StepRun} {program : Program Stepping (Except Fault Unit)}
    {s : Suspension (Except Fault Unit)} (hf : f.Unheard) (hterms : f.correlator.config = f.config)
    (he : f.jobs.get? id = some e) (hid : e.job.id = id) (hchecking : e.Checking f.config)
    (hstage : e.stage = .acting run program) (hwork : e.work f id = .perform run program)
    (hs : (f.run id e.job.target program).1 = .inl s) (hfirst : σ n = f)
    (hthen : σ (n + 1) = (f.workerTurn id).fleet) : Awaits σ (n + 1) e.job s := by
  obtain ⟨agenda, jobs, hturn⟩ := workerTurn_perform he hid hwork
  have hattempt := hchecking.acting run program hstage
  cases (run_attempt hattempt hf id).2 s hs with
  | ordered key hnext => exact .ordered key hnext
  | @checks version key hkey hversion hposted =>
    have hinHand := hchecking.inHand run (by rw [hstage]; rfl)
    refine .asked (Nat.lt_succ_self n) ?_
    rw [hthen, hfirst, hturn]
    exact {
      turn := by rw [hid, hturn]
      attempt := ⟨e, run, program, by rw [hid]; exact he, rfl, hstage⟩
      verifies := hinHand.verifies hkey hversion
      key_eq := hposted.key_eq
      sent := hposted.sent
      published := hterms ▸ hposted.published
      waits := by
        have hwaits := hposted.waits
        rw [hterms] at hwaits
        rw [Job.inquiry, hid]
        exact hwaits }

namespace Passage

/-- In a passage every worker has steps of a rollout in hand. -/
theorem checking (h : Passage config store registry σ n) (he : (σ n).jobs.get? id = some e) :
    e.Checking (σ n).config := by
  rw [h.config_eq]
  exact h.run.obeys JobEntry.rule_checking (fun _ _ _ _ _ => JobEntry.checking_new _ _) he
    (checks_register h.rollout)

/-- Whoever waits for something has asked for it. -/
theorem awaits (h : Passage config store registry σ n)
    (hsent : (σ n).correlator.sent + 1 < 2 ^ 64) (he : (σ n).jobs.get? id = some e)
    {run : StepRun} {s : Suspension (Except Fault Unit)} (hstage : e.stage = .waiting run s) :
    Awaits σ n e.job s := by
  induction n generalizing e run s with
  | zero =>
    rw [h.start, get?_opened] at he
    cases he
  | succ n ih =>
    have hbefore := h.before (Nat.le_succ n)
    have hsent' : (σ n).correlator.sent + 1 < 2 ^ 64 :=
      Nat.lt_of_le_of_lt (Nat.succ_le_succ (h.sent_le (Nat.le_succ n))) hsent
    cases ((h.steps n (Nat.lt_succ_self n)).leads hbefore.rooted).effects id with
    | beside hentry _ =>
      rw [he] at hentry
      obtain ⟨e₀, he₀, hm⟩ := mark_of_rel hentry
      rw [hm.same.job]
      exact (ih hbefore hsent' he₀ (hm.same.stage ▸ hstage)).succ
    | @turn e₀ e' he₀ he' hturn hbrings _ =>
      cases he'.symm.trans he
      rcases JobEntry.waiting_of_brings hbrings hstage with rfl | ⟨program, e₁, hwork, ha, hs, rfl⟩
      · exact (ih hbefore hsent' he₀ hstage).succ
      · change Awaits σ (n + 1) e₁.job s
        rw [ha.same.job]
        rcases (JobEntry.perform_cases hwork).2 with hacting | ⟨s₀, hwaiting, hresume⟩
        · have hterms := hbefore.terms.trans hbefore.config_eq.symm
          exact awaits_of_begun (hbefore.unheard hsent') hterms he₀ (hbefore.rooted.ids id e₀ he₀)
            (hbefore.checking he₀) hacting hwork hs rfl hturn
        · exact ((ih hbefore hsent' he₀ hwaiting).not_waits hresume hs).elim
    | submitted target steps _ _ he' _ =>
      cases he'.symm.trans he
      cases hstage

/-- A turn of a worker writes nothing but records of its job, or it commits a version that a check
of its job vouches for. -/
theorem filed_or_certifies (h : Passage config store registry σ (n + 1))
    (hsent : (σ n).correlator.sent + 1 < 2 ^ 64) (hturn : σ (n + 1) = ((σ n).workerTurn id).fleet) :
    Filed (σ n) (σ (n + 1)) ∨ ∃ job version, Vouches σ n job version ∧
      Certifies job.target version (σ n) (σ (n + 1)) := by
  have hbefore := h.before (Nat.le_succ n)
  cases he : (σ n).jobs.get? id with
  | none =>
    left
    rw [hturn, workerTurn_of_none he]
    exact .refl _
  | some e =>
    have hid := hbefore.rooted.ids id e he
    cases hwork : e.work (σ n) id with
    | change | record =>
      left
      rw [hturn]
      exact ((workerTurn_works he hid).routine_of_idle (by rw [hwork]; trivial)).filed
    | perform run program =>
      obtain ⟨agenda, jobs, hfleet⟩ := workerTurn_perform he hid hwork
      rw [hturn, hfleet]
      rcases (JobEntry.perform_cases hwork).2 with hacting | ⟨s, hwaiting, hresume⟩
      · have hattempt := (hbefore.checking he).acting run program hacting
        have hroutine := (run_attempt hattempt (hbefore.unheard hsent) id).1
        exact Or.inl { hroutine.filed with }
      · cases hbefore.awaits hsent he hwaiting with
        | ordered key hnext =>
          obtain ⟨outcome, rfl⟩ := resumes_of_resume? hresume
          obtain ⟨result, hdone⟩ := hnext outcome
          rw [hdone]
          exact Or.inl (.of_eq rfl rfl)
        | @asked version key i hi hasks =>
          obtain ⟨outcome, houtcome, rfl⟩ := Option.map_eq_some_iff.1 hresume
          rcases (σ n).run_next_check id e.job.target version outcome with
            hroutine | ⟨reply, hreply, hreported, hcertifies⟩
          · exact Or.inl { hroutine.filed with }
          · rw [hreply] at houtcome
            obtain ⟨j, p, m, hj, hreplies, rfl⟩ := hbefore.replied houtcome
            obtain ⟨hij, rfl⟩ := hbefore.replies_after hsent hi hj hasks hreplies
            have hconfig := (hbefore.before (Nat.le_of_lt hj)).config_eq
            refine Or.inr ⟨e.job, version, ?_, hcertifies.chronicle, hcertifies.store⟩
            exact .intro hasks (hconfig.symm ▸ hreplies) hij hj (hturn.trans (by rw [hid]))
              (m.version?_eq_some_iff hreported)

end Passage

/-- A step that writes nothing but job records needs no voucher. -/
theorem Filed.vouched (h : Filed (σ n) (σ (n + 1))) : Vouched σ n where
  commits := by
    obtain ⟨events, hchronicle, hevents⟩ := h.chronicle
    refine ⟨events, hchronicle, fun time tx writes hmem target w hw hkey => ?_⟩
    have hjob : IsJobKey w.key := hevents _ hmem w hw
    exact (not_isJobKey_versionKey target (hkey ▸ hjob)).elim
  records target hne := (hne (h.records _ (not_isJobKey_versionKey target))).elim

/-- A step that commits what a check has certified is vouched for. -/
theorem Certifies.vouched {job : Job} {version : String}
    (h : Certifies job.target version (σ n) (σ (n + 1))) (hvouches : Vouches σ n job version) :
    Vouched σ n where
  commits := by
    obtain ⟨tx, hchronicle⟩ := h.chronicle
    refine ⟨_, hchronicle, fun time tx' writes hmem target w hw hkey => ?_⟩
    cases List.mem_singleton.1 hmem
    obtain rfl := List.mem_singleton.1 hw
    obtain rfl := versionKey_injective hkey
    exact ⟨job, version, rfl, rfl, hvouches⟩
  records target hne := by
    rw [h.store, Store.read_apply_put] at hne ⊢
    split at hne
    · next hkey =>
      obtain rfl := versionKey_injective hkey
      exact Or.inl ⟨job, version, _, rfl, hvouches, if_pos rfl, rfl⟩
    · exact (hne rfl).elim

/-- A write from outside is nobody's to vouch for. -/
theorem vouched_writeBehind {writes : List Write} {reads : Table String (Option Nat)}
    (h : σ (n + 1) = ((σ n).writeBehind writes reads).2) : Vouched σ n where
  commits := ⟨[], by rw [h, List.append_nil]; rfl, nofun⟩
  records target hne := by
    refine Or.inr ⟨writes, reads, h, ?_⟩
    by_contra hother
    push Not at hother
    rw [h] at hne
    exact hne ((σ n).transactions.store.commitBehind_of_ne reads hother).1

/-- In every run of a fleet with the steps of a rollout, whatever is asked of it, whatever messages
come in and whatever is written from outside, a version of a device is committed only when a check
of a job for the device vouches for it, as long as keys last. Nothing else makes the store tell
another version than it told before, but a write from outside. -/
theorem versions_vouched (h : Passage config store registry σ (n + 1))
    (hsent : (σ n).correlator.sent + 1 < 2 ^ 64) : Vouched σ n := by
  rcases (h.steps n (Nat.lt_succ_self n)).routine_or with
    hroutine | hdelivery | ⟨id, hturn⟩ | ⟨writes, reads, hwrite⟩
  · exact hroutine.filed.vouched
  · have hfiled : Filed (σ n) (σ (n + 1)) := hdelivery ▸ (σ n).filed_deliveryTurn
    exact hfiled.vouched
  · rcases h.filed_or_certifies hsent hturn with hfiled | ⟨job, version, hvouches, hcertifies⟩
    · exact hfiled.vouched
    · exact hcertifies.vouched hvouches
  · exact vouched_writeBehind hwrite

/-- What has become of a fleet after so many moves. -/
def row (f : Fleet) (moves : List (Fleet → Fleet)) (n : Nat) : Fleet :=
  (moves.take n).foldl (fun f move => move f) f

private theorem passage_row (hrollout : register .empty = .ok registry) {moves :
    List (Fleet → Fleet)} (h : ∀ move ∈ moves, ∀ f, Loose f (move f)) :
    Passage config store registry (row (opened config store registry) moves) moves.length where
  rollout := hrollout
  start := rfl
  steps k hk := by
    have hnext : row (opened config store registry) moves (k + 1) =
        moves[k] (row (opened config store registry) moves k) := by
      rw [row, List.take_succ_eq_append_getElem hk, List.foldl_append]
      rfl
    rw [hnext]
    exact h _ (List.getElem_mem hk) _

/-- A job checks for a version. Its worker asks the device, which reports something, and the worker
hears that. -/
def checkMoves (version report : String) : List (Fleet → Fleet) :=
  (fun f => (f.submit "edge-1" [(JobStep.new verifyBundle).withProperty "version" version]).2) ::
    List.replicate 5 (fun f => (f.workerTurn 1).fleet) ++
    [fun f => (f.publish (.new "fleet/edge-1/reply" 1 (Text.utf8 report) 0)).2,
      fun f => f.deliveryTurn.fleet, fun f => f.deliveryTurn.fleet,
      fun f => (f.workerTurn 1).fleet]

/-- What becomes of a fleet in that. -/
def checkedRow (version report : String) : Nat → Fleet :=
  row (opened .standard (.new []) rolloutRegistry) (checkMoves version report)

private theorem passage_checkedRow (version report : String) :
    Passage .standard (.new []) rolloutRegistry (checkedRow version report) 10 := by
  refine passage_row rfl fun move hmove f => ?_
  simp only [checkMoves, List.cons_append, List.mem_cons, List.mem_append, List.mem_replicate,
    List.not_mem_nil, or_false] at hmove
  rcases hmove with rfl | ⟨-, rfl⟩ | rfl | rfl | rfl | rfl
  · exact .step (.submit _ _)
  · exact .step (.turn (.worker 1))
  · exact .step (.publish _)
  · exact .step (.turn .delivery)
  · exact .step (.turn .delivery)
  · exact .step (.turn (.worker 1))

/-- The device reports the version that is asked for, so that one is committed. -/
theorem versions_vouched_checkedRow :
    (∃ tx, (checkedRow "2.0" "version=2.0" 10).chronicle =
      (checkedRow "2.0" "version=2.0" 9).chronicle ++
        [(0, .committed tx [.put "device/edge-1/version" (Text.utf8 "2.0")])]) ∧
    ∃ job version, job.target = "edge-1" ∧ Text.utf8 "2.0" = Text.utf8 version ∧
      Vouches (checkedRow "2.0" "version=2.0") 9 job version := by
  have hcommitted : (checkedRow "2.0" "version=2.0" 10).chronicle =
      (checkedRow "2.0" "version=2.0" 9).chronicle ++
        [(0, .committed 4 [.put "device/edge-1/version" (Text.utf8 "2.0")])] := rfl
  have hvouched := versions_vouched (passage_checkedRow "2.0" "version=2.0") (by decide +kernel)
  obtain ⟨events, hevents, hall⟩ := hvouched.commits
  obtain rfl := List.append_cancel_left (hcommitted.symm.trans hevents)
  obtain ⟨job, version, htarget, hwrite, hvouches⟩ := hall _ _ _ (List.mem_singleton_self _)
    "edge-1" _ (List.mem_singleton_self _) rfl
  exact ⟨⟨4, hcommitted⟩, job, version, htarget, (Write.put.inj hwrite).2, hvouches⟩

/-- A device that refuses to tell its version passes a check for the empty one: that is committed,
and no message that came in has reported it. -/
theorem certifies_refusal :
    Passage .standard (.new []) rolloutRegistry (checkedRow "" "error: busy") 10 ∧
    (∃ tx, (checkedRow "" "error: busy" 10).chronicle = (checkedRow "" "error: busy" 9).chronicle ++
      [(0, .committed tx [.put "device/edge-1/version" (Text.utf8 "")])]) ∧
    ∀ j < 10, ∀ m, (checkedRow "" "error: busy" j).broker.inbox.head? = some m →
      m.version? ≠ some "" := by
  have hsilent : ∀ j < 10,
      (checkedRow "" "error: busy" j).broker.inbox.head?.bind Message.version? ≠ some "" := by
    decide +kernel
  refine ⟨passage_checkedRow _ _, ⟨4, rfl⟩, fun j hj m hm => ?_⟩
  have hnone := hsilent j hj
  rwa [hm] at hnone

end Fleet

end Flotilla
