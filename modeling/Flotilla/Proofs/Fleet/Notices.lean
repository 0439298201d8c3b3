import Flotilla.Proofs.Fleet.Aside
import Flotilla.Proofs.Store.Numbering
import Flotilla.Proofs.Wire.Records

/-!
# Records and notices

The records of a job that the store took are in the chronicle (`Fleet.commitsOf`), and so are the
notices that were read; with those that are still unread they are all that were sent for the job
(`Fleet.noticesOf`). Whoever spares job records adds to neither (`Fleet.Silent`), and a record that
is taken adds one to both (`Fleet.Takes`).
-/

namespace Flotilla

/-- Numbers that are written alike are equal. -/
theorem Text.decimal_inj {m n : Nat} (h : Text.decimal m = Text.decimal n) : m = n := by
  have hdigits := congrArg (fun s => Nat.ofDigitChars 10 s.toList 0) h
  simpa only [Text.decimal, String.toList_ofList, Nat.ofDigitChars_ten_toDigits] using hdigits

/-- Different jobs have different keys. -/
theorem Job.key_inj {a b : JobId} (h : Job.key a = Job.key b) : a = b := by
  have hlist := congrArg String.toList h
  rw [Job.key, Job.key, String.toList_append, String.toList_append] at hlist
  have hdecimal := String.toList_inj.1 (List.append_cancel_left hlist)
  exact UInt64.toNat_inj.1 (Text.decimal_inj hdecimal)

/-- What an event tells of having been written under a key. -/
def Event.written (key : String) : Event → List Bytes
  | .committed _ writes => writes.filterMap (Write.valueFor? key)
  | _ => []

private theorem Event.Spares.written {event : Event} (h : event.Spares) {key : String}
    (hkey : IsJobKey key) : event.written key = [] := by
  cases event with
  | committed tx writes =>
    refine List.filterMap_eq_nil_iff.2 fun w hw => ?_
    have hne := WritesSpare.key_ne h hkey w hw
    cases w with
    | put k value => exact if_neg hne
    | delete k => rfl
  | _ => rfl

/-- Bytes that are a job's record, and from which the job can be read back. -/
structure Records (value : Bytes) (job : Job) : Prop where
  bytes : value = job.toRecord.toBytes
  decoded : value.length < 2 ^ 64 → Fleet.decodeJob value = .ok job.recorded

/-- The bytes of a record are a record of the job. -/
theorem records_toBytes (job : Job) : Records job.toRecord.toBytes job := by
  refine ⟨rfl, fun h => ?_⟩
  rw [Fleet.decodeJob, JobRecord.ofBytes?_toBytes h]
  exact congrArg Except.ok job.ofRecord_toRecord

/-- A notice that tells what a record says. -/
def Tells (id : JobId) (value : Bytes) (notice : JobState × Nat) : Prop :=
  ∃ job : Job, job.id = id ∧ Records value job ∧ notice = (job.state, job.currentStep)

namespace Fleet

/-- The records of a job that the store took, the earliest first. -/
def commitsOf (f : Fleet) (id : JobId) : List Bytes :=
  f.chronicle.flatMap fun e => e.2.written (Job.key id)

/-- The notices that were sent out, whether or not they have been read. -/
def sent (f : Fleet) : List (JobId × JobState × Nat) :=
  f.chronicle.notices.map Prod.snd ++ f.unread

/-- The notices that were sent out for a job. -/
def noticesOf (f : Fleet) (id : JobId) : List (JobState × Nat) :=
  f.sent.filterMap fun n => if n.1 = id then some n.2 else none

variable {f g : Fleet} {s₀ : Store}

/-- No record was taken and no notice was sent. -/
structure Silent (f g : Fleet) : Prop where
  commits : ∀ id, g.commitsOf id = f.commitsOf id
  sent : g.sent = f.sent
  records : ∀ id,
    g.transactions.store.store.read (Job.key id) = f.transactions.store.store.read (Job.key id) ∧
      g.transactions.store.store.lastVersion (Job.key id) =
        f.transactions.store.store.lastVersion (Job.key id)

private theorem notices_of_spares {events : Chronicle} (h : ∀ e ∈ events, e.2.Spares) :
    events.notices = [] := by
  refine List.filterMap_eq_nil_iff.2 fun e he => ?_
  have hspares := h e he
  revert hspares
  cases e.2 with
  | recorded job state step | noticed job state step => exact False.elim
  | published m | delivered subscription name m | committed tx writes | noted job note
  | settled caller outcome | closed => exact fun _ => rfl

/-- Where job records are as they were, nothing was told of them. -/
theorem Apart.silent (h : Apart f g) : Silent f g := by
  obtain ⟨events, hchronicle, hevents⟩ := h.chronicle
  refine ⟨fun id => ?_, ?_, fun id => h.records _ (isJobKey_key id)⟩
  · have hnone : (events.flatMap fun e => e.2.written (Job.key id)) = [] :=
      List.flatMap_eq_nil_iff.2 fun e he => (hevents e he).written (isJobKey_key id)
    rw [commitsOf, hchronicle, List.flatMap_append, hnone, List.append_nil]
    rfl
  · rw [sent, hchronicle, Chronicle.notices_append, notices_of_spares hevents, List.append_nil,
      h.unread]
    rfl

/-- A notice that is read has been sent before. -/
theorem silent_readerTurn (f : Fleet) : Silent f f.readerTurn.fleet := by
  rw [readerTurn_eq]
  refine ⟨fun id => ?_, ?_, fun id => ⟨rfl, rfl⟩⟩
  · have hnone : ((f.unread.map fun n =>
        ((f.now, .noticed n.1 n.2.1 n.2.2) : Nat × Event)).flatMap
          fun e => e.2.written (Job.key id)) = [] := by
      refine List.flatMap_eq_nil_iff.2 fun e he => ?_
      obtain ⟨n, -, rfl⟩ := List.mem_map.1 he
      rfl
    rw [commitsOf]
    dsimp only
    rw [List.flatMap_append, hnone, List.append_nil]
    rfl
  · have hread (l : List (JobId × JobState × Nat)) :
        (Chronicle.notices (l.map fun n => (f.now, .noticed n.1 n.2.1 n.2.2))).map Prod.snd =
          l := by
      induction l with
      | nil => rfl
      | cons n l ih => exact congrArg (n :: ·) ih
    rw [sent, Chronicle.notices_append, List.map_append, List.append_nil, hread]
    rfl

/-- The store took the record of a job, and a notice was sent. -/
structure Takes (f g : Fleet) (job : Job) : Prop where
  chronicle : ∃ tx, g.chronicle = f.chronicle ++
    [(f.now, .committed tx [recordOf job]), (f.now, .recorded job.id job.state job.currentStep)]
  unread : g.unread = f.unread ++ [(job.id, job.state, job.currentStep)]
  store : g.transactions.store.store = f.transactions.store.store.apply (recordOf job)

variable {job : Job}

/-- A record that is taken is committed for its job. -/
theorem Takes.commits (h : Takes f g job) (id : JobId) :
    g.commitsOf id = f.commitsOf id ++ if job.id = id then [job.toRecord.toBytes] else [] := by
  obtain ⟨tx, hchronicle⟩ := h.chronicle
  rw [commitsOf, hchronicle, List.flatMap_append]
  refine congrArg (f.commitsOf id ++ ·) ?_
  simp only [List.flatMap_cons, List.flatMap_nil, Event.written, recordOf, List.filterMap_cons,
    Write.valueFor?, List.filterMap_nil, List.append_nil]
  by_cases hid : job.id = id
  · rw [if_pos hid, if_pos (congrArg Job.key hid)]
  · rw [if_neg hid, if_neg fun hkey => hid (Job.key_inj hkey)]

/-- A record that is taken is told of. -/
theorem Takes.noticesOf (h : Takes f g job) (id : JobId) :
    g.noticesOf id = f.noticesOf id ++
      if job.id = id then [(job.state, job.currentStep)] else [] := by
  obtain ⟨tx, hchronicle⟩ := h.chronicle
  have hnotices : g.chronicle.notices = f.chronicle.notices := by
    rw [hchronicle, Chronicle.notices_append]
    exact List.append_nil _
  have hsent : g.sent = f.sent ++ [(job.id, job.state, job.currentStep)] := by
    rw [sent, hnotices, h.unread, ← List.append_assoc]
    rfl
  rw [Fleet.noticesOf, hsent, List.filterMap_append]
  refine congrArg (f.noticesOf id ++ ·) ?_
  by_cases hid : job.id = id
  · simp only [List.filterMap_cons, hid, if_true, List.filterMap_nil]
  · simp only [List.filterMap_cons, hid, if_false, List.filterMap_nil]

/-- A record that is taken is what the store tells of the job, with the next version. -/
theorem Takes.read (h : Takes f g job) (id : JobId) :
    g.transactions.store.store.read (Job.key id) =
      if job.id = id then
        some ⟨job.toRecord.toBytes, f.transactions.store.store.lastVersion (Job.key id) + 1⟩
      else f.transactions.store.store.read (Job.key id) := by
  rw [h.store, recordOf, Store.read_apply_put]
  by_cases hid : job.id = id
  · rw [if_pos hid, if_pos (congrArg Job.key hid), hid]
  · rw [if_neg hid, if_neg fun hkey => hid (Job.key_inj hkey)]

/-- A record that is taken counts. -/
theorem Takes.lastVersion (h : Takes f g job) (id : JobId) :
    g.transactions.store.store.lastVersion (Job.key id) =
      f.transactions.store.store.lastVersion (Job.key id) + if job.id = id then 1 else 0 := by
  rw [h.store, recordOf, Store.lastVersion_apply_put]
  by_cases hid : job.id = id
  · rw [if_pos hid, if_pos (congrArg Job.key hid), hid]
  · rw [if_neg hid, if_neg fun hkey => hid (Job.key_inj hkey), Nat.add_zero]

end Fleet

end Flotilla
