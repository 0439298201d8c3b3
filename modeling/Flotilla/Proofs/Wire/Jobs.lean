import Flotilla.Proofs.Wire.Records
import Flotilla.Proofs.Wire.Room

/-!
# Jobs stored and loaded again

A stored job comes back but for what its record leaves out, and a job that was loaded from any
bytes at all is stored and loaded without a further change (`Job.reload_stored`). For the second
half the record that is written has to fit in lengths of 64 bits whenever the bytes that were read
do. It does because a reader accepts no shorter form of anything than the writer's: fields take at
least their room (`Wire.room_of_readFields`), and from these properties and steps.
-/

namespace Flotilla

namespace Property

/-- Taking a field into a property adds no more than the room of the field. -/
theorem length_absorb {p q : Property} {f : Wire.Field} (h : p.absorb f = some q) :
    q.toBytes.length ≤ p.toBytes.length + f.room := by
  unfold absorb at h
  split at h
  · next hname =>
    obtain ⟨s, hs, rfl⟩ := Option.map_eq_some_iff.1 h
    have htext := Wire.Field.length_putText_le hs
    rw [hname] at htext
    simp only [toBytes, List.length_append]
    omega
  split at h
  · next hvalue =>
    obtain ⟨s, hs, rfl⟩ := Option.map_eq_some_iff.1 h
    have htext := Wire.Field.length_putText_le hs
    rw [hvalue] at htext
    simp only [toBytes, List.length_append]
    omega
  · cases h
    exact Nat.le_add_right _ _

/-- A property is written in no more bytes than it was read from. -/
theorem length_toBytes_le {b : Bytes} {p : Property} (h : ofBytes? b = some p) :
    p.toBytes.length ≤ b.length :=
  Wire.size_le_of_readFields (fun p : Property => p.toBytes.length)
    (fun _ _ _ ha => length_absorb ha) (by decide) h

end Property

private theorem Table.length_flatMap_place {κ α β : Type} [DecidableEq κ] (g : κ × α → List β)
    (k : κ) (v : α) (l : List (κ × α)) :
    ((place k v l).flatMap g).length ≤ (l.flatMap g).length + (g (k, v)).length := by
  induction l with
  | nil =>
    refine Nat.le_of_eq ?_
    rw [place, List.flatMap_cons, List.flatMap_nil, List.append_nil, List.length_nil, Nat.zero_add]
  | cons e rest ih =>
    obtain ⟨k', v'⟩ := e
    rw [place]
    split
    · simp only [List.flatMap_cons, List.length_append]
      omega
    · simp only [List.flatMap_cons, List.length_append]
      omega

namespace StepRecord

/-- The record of the step that a record describes. -/
def reloaded (r : StepRecord) : StepRecord := (JobStep.ofRecord r).toRecord

private theorem length_toBytes_reloaded (r : StepRecord) : r.reloaded.toBytes.length =
    (Wire.putText 1 r.definition).length +
      (Wire.putNumber 2 (Wire.extended (StepStatus.ofCode r.status).code)).length +
      (Wire.putNumber 3 r.attempts.toNat).length + (Wire.putText 4 r.lastError).length +
      ((Table.ofList (r.properties.map fun p => (p.name, p.value))).entries.flatMap fun e =>
        Wire.putBody 5 (Property.mk e.1 e.2).toBytes).length := by
  rw [reloaded, JobStep.toRecord, JobStep.ofRecord, toBytes]
  dsimp only
  rw [getD_nonEmpty?, List.flatMap_map]
  simp only [List.length_append]

private theorem extended_code_lt (s : StepStatus) : Wire.extended s.code < 128 := by
  cases s <;> decide

/-- Taking a field into a step adds no more than the room of the field. -/
theorem length_absorb {r s : StepRecord} {f : Wire.Field} (h : r.absorb f = some s) :
    s.reloaded.toBytes.length ≤ r.reloaded.toBytes.length + f.room := by
  rw [length_toBytes_reloaded, length_toBytes_reloaded]
  unfold absorb at h
  split at h
  · next hnumber =>
    obtain ⟨t, ht, rfl⟩ := Option.map_eq_some_iff.1 h
    have htext := Wire.Field.length_putText_le ht
    rw [hnumber] at htext
    dsimp only
    omega
  split at h
  · next hnumber =>
    obtain ⟨n, hn, rfl⟩ := Option.map_eq_some_iff.1 h
    have hsmall := Wire.Field.length_putNumber_of_lt hn
      (extended_code_lt (StepStatus.ofCode (UInt32.ofNat n)))
    rw [hnumber] at hsmall
    dsimp only
    omega
  split at h
  · next hnumber =>
    obtain ⟨n, hn, rfl⟩ := Option.map_eq_some_iff.1 h
    have hmod : (UInt32.ofNat n).toNat ≤ n := by
      rw [UInt32.toNat_ofNat']
      exact Nat.mod_le _ _
    have hless := Wire.Field.length_putNumber_le hn hmod
    rw [hnumber] at hless
    dsimp only
    omega
  split at h
  · next hnumber =>
    obtain ⟨t, ht, rfl⟩ := Option.map_eq_some_iff.1 h
    have htext := Wire.Field.length_putText_le ht
    rw [hnumber] at htext
    dsimp only
    omega
  split at h
  · next hnumber =>
    obtain ⟨⟨name, value⟩, hp, rfl⟩ := Option.map_eq_some_iff.1 h
    obtain ⟨c, hc, hp⟩ := Option.bind_eq_some_iff.1 hp
    have hbody := Wire.Field.length_putBody_le hc (Property.length_toBytes_le hp)
    rw [hnumber] at hbody
    have hset :
        Table.ofList ((r.properties ++ [Property.mk name value]).map fun p => (p.name, p.value)) =
        (Table.ofList (r.properties.map fun p => (p.name, p.value))).set name value := by
      rw [List.map_append, Table.ofList, List.foldl_append]
      rfl
    have hplace := Table.length_flatMap_place
      (fun e : String × String => Wire.putBody 5 (Property.mk e.1 e.2).toBytes) name value
      (Table.ofList (r.properties.map fun p => (p.name, p.value))).entries
    dsimp only
    rw [hset, Table.set]
    dsimp only at hplace ⊢
    omega
  · cases h
    exact Nat.le_add_right _ _

/-- A step is written in no more bytes than it was read from. -/
theorem length_reloaded_le {b : Bytes} {r : StepRecord} (h : ofBytes? b = some r) :
    r.reloaded.toBytes.length ≤ b.length :=
  Wire.size_le_of_readFields (fun r : StepRecord => r.reloaded.toBytes.length)
    (fun _ _ _ ha => length_absorb ha) (by decide) h

end StepRecord

namespace JobRecord

/-- What the parts of a record take once the job it describes is stored again. -/
structure Reloadable (r : JobRecord) : Prop where
  target : (Text.utf8 r.target).length < 2 ^ 64
  lastError : (Text.utf8 r.lastError).length < 2 ^ 64
  steps : ∀ s ∈ r.steps, s.reloaded.toBytes.length < 2 ^ 64

private theorem reloadable_absorb {r s : JobRecord} {f : Wire.Field} (hf : f.Sized)
    (hr : r.Reloadable) (h : r.absorb f = some s) : s.Reloadable := by
  have htext : ∀ {t}, f.value.text? = some t → (Text.utf8 t).length < 2 ^ 64 := fun ht => by
    obtain ⟨c, hc, hs⟩ := Option.bind_eq_some_iff.1 ht
    rw [Text.utf8_of_ofUtf8? hs]
    exact hf.length_lt hc
  unfold absorb at h
  split at h
  · obtain ⟨n, -, rfl⟩ := Option.map_eq_some_iff.1 h
    exact ⟨hr.target, hr.lastError, hr.steps⟩
  split at h
  · obtain ⟨t, ht, rfl⟩ := Option.map_eq_some_iff.1 h
    exact ⟨htext ht, hr.lastError, hr.steps⟩
  split at h
  · obtain ⟨n, -, rfl⟩ := Option.map_eq_some_iff.1 h
    exact ⟨hr.target, hr.lastError, hr.steps⟩
  split at h
  · obtain ⟨n, -, rfl⟩ := Option.map_eq_some_iff.1 h
    exact ⟨hr.target, hr.lastError, hr.steps⟩
  split at h
  · obtain ⟨s, hs, rfl⟩ := Option.map_eq_some_iff.1 h
    obtain ⟨c, hc, hs⟩ := Option.bind_eq_some_iff.1 hs
    refine ⟨hr.target, hr.lastError, fun x hx => ?_⟩
    rcases List.mem_append.1 hx with hx | hx
    · exact hr.steps x hx
    · rw [List.mem_singleton.1 hx]
      exact Nat.lt_of_le_of_lt (StepRecord.length_reloaded_le hs) (hf.length_lt hc)
  split at h
  · obtain ⟨t, ht, rfl⟩ := Option.map_eq_some_iff.1 h
    exact ⟨hr.target, htext ht, hr.steps⟩
  split at h
  · obtain ⟨n, -, rfl⟩ := Option.map_eq_some_iff.1 h
    exact ⟨hr.target, hr.lastError, hr.steps⟩
  · cases h
    exact hr

/-- What is read from bytes can be stored again. -/
theorem reloadable_of_ofBytes? {b : Bytes} {r : JobRecord} (h : ofBytes? b = some r) :
    r.Reloadable := by
  obtain ⟨fields, hfields, hfold⟩ := Option.bind_eq_some_iff.1 h
  have hsized := (Wire.room_of_readFields hfields).2
  exact Wire.foldlM_keeps (fun f hf _ _ hr ha => reloadable_absorb (hsized f hf) hr ha)
    ⟨by decide, by decide, fun s hs => absurd hs List.not_mem_nil⟩ hfold

private theorem Reloadable.fits {r : JobRecord} (h : r.Reloadable) :
    (Job.ofRecord r).toRecord.Fits := by
  refine ⟨h.target, ?_, fun s hs => ?_⟩
  · change (Text.utf8 ((nonEmpty? r.lastError).getD "")).length < 2 ^ 64
    rw [getD_nonEmpty?]
    exact h.lastError
  · obtain ⟨t, ht, rfl⟩ := List.mem_map.1 hs
    obtain ⟨x, hx, rfl⟩ := List.mem_map.1 ht
    exact h.steps x hx

end JobRecord

namespace Job

/-- A job that comes from a record comes back from its own record unchanged. -/
theorem recorded_ofRecord (r : JobRecord) : (ofRecord r).recorded = ofRecord r := by
  have hstep : ∀ s : StepRecord, (JobStep.ofRecord s).recorded = JobStep.ofRecord s := fun s => by
    simp only [JobStep.recorded, JobStep.ofRecord, bind_nonEmpty?]
  simp only [recorded, ofRecord, List.map_map, bind_nonEmpty?, UInt32.ofNat_toNat]
  congr 1
  exact List.map_congr_left fun s _ => hstep s

/-- A job is read back from its stored record without the policies of its steps, with the moment of
its last record as the one of its submission and with no error where the text of the error is
empty; the rest of it is as it was. Whatever bytes a record was read from, the job of that record
is read back as it is: nothing is lost by storing it once more. -/
theorem reload_stored :
    (∀ j : Job, j.currentStep < 2 ^ 32 → j.toRecord.toBytes.length < 2 ^ 64 →
      JobRecord.ofBytes? j.toRecord.toBytes = some j.toRecord ∧
      ofRecord j.toRecord = { j with
        steps := j.steps.map fun s =>
          { s with retry := none, lastError := s.lastError.bind nonEmpty? }
        lastError := j.lastError.bind nonEmpty?
        createdAtMs := j.updatedAtMs }) ∧
    ∀ b r, JobRecord.ofBytes? b = some r →
      JobRecord.ofBytes? (ofRecord r).toRecord.toBytes = some (ofRecord r).toRecord ∧
      ofRecord (ofRecord r).toRecord = ofRecord r := by
  refine ⟨fun j hturn hlength => ⟨JobRecord.ofBytes?_toBytes hlength, ?_⟩, fun b r hread =>
    ⟨(JobRecord.reloadable_of_ofBytes? hread).fits.ofBytes?_toBytes, ?_⟩⟩
  · have hcurrent : (UInt32.ofNat j.currentStep).toNat = j.currentStep :=
      UInt32.toNat_ofNat_of_lt' hturn
    rw [ofRecord_toRecord, recorded, hcurrent]
    rfl
  · rw [ofRecord_toRecord, recorded_ofRecord]

/-- A job with everything in it that its record leaves out. -/
def sparelyRecorded : Job where
  id := 7
  target := "pump"
  steps := [⟨"inspect", ∅, some RetryPolicy.once, .failed, 2, some ""⟩]
  currentStep := 1
  state := .stepFailed
  lastError := some ""
  createdAtMs := 5
  updatedAtMs := 9

/-- A record with the number of a state that no job has. -/
def strangeRecord : JobRecord := { JobRecord.blank with state := 9 }

/-- A step that is recorded without a policy and with no properties comes back as it was. -/
theorem reload_stored_sparelyRecorded :
    ofRecord sparelyRecorded.toRecord = { sparelyRecorded with
      steps := [⟨"inspect", ∅, none, .failed, 2, none⟩]
      lastError := none
      createdAtMs := 9 } ∧
    JobRecord.ofBytes? [24, 9] = some strangeRecord ∧
    ofRecord (ofRecord strangeRecord).toRecord = ofRecord strangeRecord := by
  have hread : JobRecord.ofBytes? [24, 9] = some strangeRecord := by decide +kernel
  exact ⟨(reload_stored.1 sparelyRecorded (by decide) (by decide +kernel)).2, hread,
    (reload_stored.2 [24, 9] strangeRecord hread).2⟩

end Job

end Flotilla
