import Flotilla.Job
import Flotilla.Proofs.Wire.Fields

/-!
# Job records read back

What a record is written as reads back as the same record (`JobRecord.ofBytes?_toBytes`), from the
properties of its steps up; only bytes that do not fit in `2 ^ 64` have no length that could be
written. A job comes back from its record as `Job.recorded`.
-/

namespace Flotilla

private theorem Wire.extended_lt (n : UInt32) : extended n < 2 ^ 64 := by
  have hn := n.toNat_lt
  have hsign : UInt64.size - UInt32.size = 18446744069414584320 := rfl
  rw [extended, hsign]
  split <;> omega

/-- The sign bits in front of a number do not change it. -/
theorem Wire.ofNat_extended (n : UInt32) : UInt32.ofNat (extended n) = n := by
  have hn := n.toNat_lt
  have hsign : UInt64.size - UInt32.size = 18446744069414584320 := rfl
  apply UInt32.toNat_inj.1
  rw [UInt32.toNat_ofNat', extended, hsign]
  split
  · omega
  · omega

private theorem Wire.eq_zero_of_extended {n : UInt32} (h : extended n = 0) : n = 0 := by
  rw [← ofNat_extended n, h]
  rfl

namespace Property

/-- A property is read back from its bytes. -/
theorem ofBytes?_toBytes {p : Property} (h : p.toBytes.length < 2 ^ 64) :
    ofBytes? p.toBytes = some p := by
  have hlength := h
  rw [toBytes, List.length_append] at hlength
  have hwrites : Wire.Writes p.toBytes (Wire.textField 1 p.name ++ Wire.textField 2 p.value) :=
    (Wire.writes_putText (by decide) (by decide) (by omega)).append
      (Wire.writes_putText (by decide) (by decide) (by omega))
  have hname : (Wire.textField 1 p.name).foldlM absorb ⟨"", ""⟩ = some ⟨p.name, ""⟩ :=
    Wire.foldlM_textField (fun he => he ▸ rfl)
      (by simp [absorb, Wire.Value.text?, Wire.Value.bytes?])
  have hvalue : (Wire.textField 2 p.value).foldlM absorb ⟨p.name, ""⟩ = some p :=
    Wire.foldlM_textField (fun he => by rw [← he])
      (by simp [absorb, Wire.Value.text?, Wire.Value.bytes?])
  rw [ofBytes?, hwrites.readFields_eq, Option.bind_some, List.foldlM_append, hname]
  exact hvalue

end Property

namespace StepRecord

/-- A step is read back from its bytes. -/
theorem ofBytes?_toBytes {r : StepRecord} (h : r.toBytes.length < 2 ^ 64) :
    ofBytes? r.toBytes = some r := by
  have hlength := h
  simp only [toBytes, List.length_append] at hlength
  have hproperties : ∀ p ∈ r.properties, p.toBytes.length < 2 ^ 64 := fun p hp =>
    Nat.lt_of_le_of_lt (Wire.length_body_le 5 Property.toBytes hp) (by omega)
  have hwrites : Wire.Writes r.toBytes (Wire.textField 1 r.definition ++
      Wire.numberField 2 (Wire.extended r.status) ++ Wire.numberField 3 r.attempts.toNat ++
      Wire.textField 4 r.lastError ++ r.properties.map fun p => ⟨5, .bytes p.toBytes⟩) :=
    ((((Wire.writes_putText (by decide) (by decide) (by omega)).append
      (Wire.writes_putNumber (by decide) (by decide) (Wire.extended_lt _))).append
      (Wire.writes_putNumber (by decide) (by decide)
        (Nat.lt_trans r.attempts.toNat_lt (by decide)))).append
      (Wire.writes_putText (by decide) (by decide) (by omega))).append
      (Wire.writes_bodies (by decide) (by decide) _ hproperties)
  have hdefinition : (Wire.textField 1 r.definition).foldlM absorb blank =
      some { blank with definition := r.definition } :=
    Wire.foldlM_textField (fun he => he ▸ rfl)
      (by simp [absorb, Wire.Value.text?, Wire.Value.bytes?])
  have hstatus : (Wire.numberField 2 (Wire.extended r.status)).foldlM absorb
      { blank with definition := r.definition } =
        some { blank with definition := r.definition, status := r.status } :=
    Wire.foldlM_numberField (fun he => by rw [Wire.eq_zero_of_extended he]; rfl)
      (by simp [absorb, Wire.Value.number?, Wire.ofNat_extended])
  have hattempts : (Wire.numberField 3 r.attempts.toNat).foldlM absorb
      { blank with definition := r.definition, status := r.status } =
        some ⟨r.definition, r.status, r.attempts, "", []⟩ :=
    Wire.foldlM_numberField (fun he => by rw [(UInt32.toNat_inj (b := 0)).1 he]; rfl)
      (by simp [absorb, Wire.Value.number?, blank])
  have hlastError : (Wire.textField 4 r.lastError).foldlM absorb
      ⟨r.definition, r.status, r.attempts, "", []⟩ =
        some ⟨r.definition, r.status, r.attempts, r.lastError, []⟩ :=
    Wire.foldlM_textField (fun he => he ▸ rfl)
      (by simp [absorb, Wire.Value.text?, Wire.Value.bytes?])
  rw [ofBytes?, hwrites.readFields_eq, Option.bind_some, List.foldlM_append, List.foldlM_append,
    List.foldlM_append, List.foldlM_append, hdefinition]
  simp only [Option.bind_eq_bind, Option.bind_some, hstatus, hattempts, hlastError]
  exact Wire.foldlM_bodies
    (fun properties => StepRecord.mk r.definition r.status r.attempts r.lastError properties)
    (fun before p hp => by
      simp [absorb, Wire.Value.bytes?, Property.ofBytes?_toBytes (hproperties p hp)]) []

end StepRecord

namespace JobRecord

/-- The parts of a record have lengths that can be written. -/
structure Fits (r : JobRecord) : Prop where
  target : (Text.utf8 r.target).length < 2 ^ 64
  lastError : (Text.utf8 r.lastError).length < 2 ^ 64
  steps : ∀ s ∈ r.steps, s.toBytes.length < 2 ^ 64

/-- A record whose parts have lengths that can be written reads back from its bytes. -/
theorem Fits.ofBytes?_toBytes {r : JobRecord} (h : r.Fits) : ofBytes? r.toBytes = some r := by
  have hwrites : Wire.Writes r.toBytes (Wire.numberField 1 r.id.toNat ++
      Wire.textField 2 r.target ++ Wire.numberField 3 (Wire.extended r.state) ++
      Wire.numberField 4 r.currentStep.toNat ++
      (r.steps.map fun s => ⟨5, .bytes s.toBytes⟩) ++ Wire.textField 6 r.lastError ++
      Wire.numberField 7 r.updatedAtMs.toNat) :=
    ((((((Wire.writes_putNumber (by decide) (by decide) r.id.toNat_lt).append
      (Wire.writes_putBytes (by decide) (by decide) h.target)).append
      (Wire.writes_putNumber (by decide) (by decide) (Wire.extended_lt _))).append
      (Wire.writes_putNumber (by decide) (by decide)
        (Nat.lt_trans r.currentStep.toNat_lt (by decide)))).append
      (Wire.writes_bodies (by decide) (by decide) _ h.steps)).append
      (Wire.writes_putBytes (by decide) (by decide) h.lastError)).append
      (Wire.writes_putNumber (by decide) (by decide) r.updatedAtMs.toNat_lt)
  have hid : (Wire.numberField 1 r.id.toNat).foldlM absorb blank =
      some ⟨r.id, "", 0, 0, [], "", 0⟩ :=
    Wire.foldlM_numberField (fun he => by rw [(UInt64.toNat_inj (b := 0)).1 he]; rfl)
      (by simp [absorb, Wire.Value.number?, blank])
  have htarget : (Wire.textField 2 r.target).foldlM absorb ⟨r.id, "", 0, 0, [], "", 0⟩ =
      some ⟨r.id, r.target, 0, 0, [], "", 0⟩ :=
    Wire.foldlM_textField (fun he => he ▸ rfl)
      (by simp [absorb, Wire.Value.text?, Wire.Value.bytes?])
  have hstate : (Wire.numberField 3 (Wire.extended r.state)).foldlM absorb
      ⟨r.id, r.target, 0, 0, [], "", 0⟩ = some ⟨r.id, r.target, r.state, 0, [], "", 0⟩ :=
    Wire.foldlM_numberField (fun he => by rw [Wire.eq_zero_of_extended he])
      (by simp [absorb, Wire.Value.number?, Wire.ofNat_extended])
  have hcurrent : (Wire.numberField 4 r.currentStep.toNat).foldlM absorb
      ⟨r.id, r.target, r.state, 0, [], "", 0⟩ =
        some ⟨r.id, r.target, r.state, r.currentStep, [], "", 0⟩ :=
    Wire.foldlM_numberField (fun he => by rw [(UInt32.toNat_inj (b := 0)).1 he])
      (by simp [absorb, Wire.Value.number?])
  have hbodies : (r.steps.map fun s => (⟨5, .bytes s.toBytes⟩ : Wire.Field)).foldlM absorb
      ⟨r.id, r.target, r.state, r.currentStep, [], "", 0⟩ =
        some ⟨r.id, r.target, r.state, r.currentStep, r.steps, "", 0⟩ :=
    Wire.foldlM_bodies
      (fun steps => JobRecord.mk r.id r.target r.state r.currentStep steps "" 0)
      (fun before s hs => by
        simp [absorb, Wire.Value.bytes?, StepRecord.ofBytes?_toBytes (h.steps s hs)]) []
  have hlastError : (Wire.textField 6 r.lastError).foldlM absorb
      ⟨r.id, r.target, r.state, r.currentStep, r.steps, "", 0⟩ =
        some ⟨r.id, r.target, r.state, r.currentStep, r.steps, r.lastError, 0⟩ :=
    Wire.foldlM_textField (fun he => he ▸ rfl)
      (by simp [absorb, Wire.Value.text?, Wire.Value.bytes?])
  have hupdated : (Wire.numberField 7 r.updatedAtMs.toNat).foldlM absorb
      ⟨r.id, r.target, r.state, r.currentStep, r.steps, r.lastError, 0⟩ = some r :=
    Wire.foldlM_numberField (fun he => by rw [← (UInt64.toNat_inj (b := 0)).1 he])
      (by simp [absorb, Wire.Value.number?])
  rw [ofBytes?, hwrites.readFields_eq, Option.bind_some]
  simp only [List.foldlM_append, hid, Option.bind_eq_bind, Option.bind_some, htarget, hstate,
    hcurrent, hbodies, hlastError, hupdated]

private theorem fits_of_length {r : JobRecord} (h : r.toBytes.length < 2 ^ 64) : r.Fits := by
  simp only [toBytes, List.length_append] at h
  refine ⟨?_, ?_, fun s hs => ?_⟩
  · exact Nat.lt_of_le_of_lt (Wire.length_le_putBytes 2 _)
      (show (Wire.putText 2 r.target).length < 2 ^ 64 by omega)
  · exact Nat.lt_of_le_of_lt (Wire.length_le_putBytes 6 _)
      (show (Wire.putText 6 r.lastError).length < 2 ^ 64 by omega)
  · exact Nat.lt_of_le_of_lt (Wire.length_body_le 5 StepRecord.toBytes hs) (by omega)

/-- A record reads back from what it is written as. -/
theorem ofBytes?_toBytes {r : JobRecord} (h : r.toBytes.length < 2 ^ 64) :
    ofBytes? r.toBytes = some r :=
  (fits_of_length h).ofBytes?_toBytes

end JobRecord

private theorem nonEmpty?_getD (text : Option String) :
    nonEmpty? (text.getD "") = text.bind nonEmpty? := by
  cases text with
  | none => rfl
  | some s => rfl

/-- An empty text counts as none, and is written as empty again. -/
theorem getD_nonEmpty? (s : String) : (nonEmpty? s).getD "" = s := by
  rw [nonEmpty?]
  split
  · next h => exact (String.isEmpty_iff.1 h).symm
  · rfl

/-- Leaving an empty text out twice is leaving it out once. -/
theorem bind_nonEmpty? (s : String) : (nonEmpty? s).bind nonEmpty? = nonEmpty? s := by
  by_cases h : s.isEmpty = true
  · simp [nonEmpty?, h]
  · simp [nonEmpty?, h]

/-- A step as it comes back from its record: without a policy of its own, and with no error where
the text of the error is empty. -/
def JobStep.recorded (s : JobStep) : JobStep :=
  { s with retry := none, lastError := s.lastError.bind nonEmpty? }

/-- A step comes back from its record with what a record holds of it. -/
theorem JobStep.ofRecord_toRecord (s : JobStep) : ofRecord s.toRecord = s.recorded := by
  have hproperties : Table.ofList ((s.properties.entries.map fun p => (⟨p.1, p.2⟩ : Property)).map
      fun p => (p.name, p.value)) = s.properties := by
    rw [List.map_map]
    exact (congrArg Table.ofList (List.map_id _)).trans (Table.ofList_entries _)
  rw [ofRecord, toRecord]
  dsimp only
  rw [hproperties, StepStatus.ofCode_code, nonEmpty?_getD]
  rfl

/-- A job as it comes back from its record. -/
def Job.recorded (j : Job) : Job :=
  { j with
    steps := j.steps.map JobStep.recorded
    currentStep := (UInt32.ofNat j.currentStep).toNat
    lastError := j.lastError.bind nonEmpty?
    createdAtMs := j.updatedAtMs }

/-- A job comes back from its record with what a record holds of it. -/
theorem Job.ofRecord_toRecord (j : Job) : ofRecord j.toRecord = j.recorded := by
  have hsteps : (j.steps.map JobStep.toRecord).map JobStep.ofRecord =
      j.steps.map JobStep.recorded := by
    rw [List.map_map]
    exact List.map_congr_left fun s _ => JobStep.ofRecord_toRecord s
  rw [ofRecord, toRecord]
  dsimp only
  rw [hsteps, JobState.ofCode_code, nonEmpty?_getD]
  rfl

/-- A job that comes back from its record has the same record. -/
theorem Job.toRecord_recorded (j : Job) : j.recorded.toRecord = j.toRecord := by
  have htext (text : Option String) : (text.bind nonEmpty?).getD "" = text.getD "" := by
    cases text with
    | none => rfl
    | some s => exact getD_nonEmpty? s
  have hsteps : (j.steps.map JobStep.recorded).map JobStep.toRecord =
      j.steps.map JobStep.toRecord := by
    rw [List.map_map]
    refine List.map_congr_left fun s _ => ?_
    rw [Function.comp_apply, JobStep.recorded, JobStep.toRecord, htext]
    rfl
  rw [Job.recorded, toRecord]
  dsimp only
  rw [hsteps, htext, UInt32.ofNat_toNat]
  rfl

end Flotilla
