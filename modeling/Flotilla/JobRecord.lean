import Flotilla.Fault
import Flotilla.Wire.Field

/-!
# Job records

The form in which a job is kept in the store. States are recorded as numbers, so that a record
with a number that no state has can still be read; an absent error is recorded as the empty text.
Bodies nest: a job holds steps and a step holds properties, and each level has one level less
left for groups that a reader skips.
-/

namespace Flotilla

/-- A property of a step. -/
structure Property where
  name : String
  value : String
  deriving DecidableEq, Repr

/-- The recorded form of a step. -/
structure StepRecord where
  /-- The key of its definition. -/
  definition : String
  /-- The number of its status: a signed number of 32 bits, held as the bits. -/
  status : UInt32
  /-- The attempts made so far. -/
  attempts : UInt32
  /-- The text of its last failure, or nothing. -/
  lastError : String
  /-- Its properties in order; a name may occur twice. -/
  properties : List Property
  deriving DecidableEq, Repr

/-- The recorded form of a job. -/
structure JobRecord where
  /-- The number of the job. -/
  id : JobId
  /-- The device it is for. -/
  target : String
  /-- The number of its state: a signed number of 32 bits, held as the bits. -/
  state : UInt32
  /-- The index of the step that is its turn. -/
  currentStep : UInt32
  /-- Its steps in order. -/
  steps : List StepRecord
  /-- The text of the failure that ended it, or nothing. -/
  lastError : String
  /-- When it was recorded, in milliseconds. -/
  updatedAtMs : UInt64
  deriving DecidableEq, Repr

namespace Wire

/-- The 64 bits that a signed number of 32 bits is written as. -/
def extended (n : UInt32) : Nat :=
  if n.toNat < 2147483648 then n.toNat else n.toNat + (UInt64.size - UInt32.size)

end Wire

namespace Property

/-- The binary form. -/
def toBytes (p : Property) : Bytes := Wire.putText 1 p.name ++ Wire.putText 2 p.value

/-- Take over the value of a field. -/
def absorb (p : Property) (f : Wire.Field) : Option Property :=
  if f.number = 1 then f.value.text?.map fun s => { p with name := s }
  else if f.number = 2 then f.value.text?.map fun s => { p with value := s }
  else some p

/-- Read the binary form. -/
def ofBytes? (b : Bytes) : Option Property :=
  (Wire.readFields (Wire.bodyDepth - 2) b).bind fun fields => fields.foldlM absorb ⟨"", ""⟩

end Property

namespace StepRecord

/-- The record in which no field is set. -/
def blank : StepRecord := ⟨"", 0, 0, "", []⟩

/-- The binary form. -/
def toBytes (r : StepRecord) : Bytes :=
  Wire.putText 1 r.definition ++ Wire.putNumber 2 (Wire.extended r.status) ++
    Wire.putNumber 3 r.attempts.toNat ++ Wire.putText 4 r.lastError ++
    r.properties.flatMap fun p => Wire.putBody 5 p.toBytes

/-- Take over the value of a field. -/
def absorb (r : StepRecord) (f : Wire.Field) : Option StepRecord :=
  if f.number = 1 then f.value.text?.map fun s => { r with definition := s }
  else if f.number = 2 then f.value.number?.map fun n => { r with status := UInt32.ofNat n }
  else if f.number = 3 then f.value.number?.map fun n => { r with attempts := UInt32.ofNat n }
  else if f.number = 4 then f.value.text?.map fun s => { r with lastError := s }
  else if f.number = 5 then
    (f.value.bytes?.bind Property.ofBytes?).map fun p =>
      { r with properties := r.properties ++ [p] }
  else some r

/-- Read the binary form. -/
def ofBytes? (b : Bytes) : Option StepRecord :=
  (Wire.readFields (Wire.bodyDepth - 1) b).bind fun fields => fields.foldlM absorb blank

end StepRecord

namespace JobRecord

/-- The record in which no field is set. -/
def blank : JobRecord := ⟨0, "", 0, 0, [], "", 0⟩

/-- The binary form. -/
def toBytes (r : JobRecord) : Bytes :=
  Wire.putNumber 1 r.id.toNat ++ Wire.putText 2 r.target ++
    Wire.putNumber 3 (Wire.extended r.state) ++ Wire.putNumber 4 r.currentStep.toNat ++
    (r.steps.flatMap fun s => Wire.putBody 5 s.toBytes) ++ Wire.putText 6 r.lastError ++
    Wire.putNumber 7 r.updatedAtMs.toNat

/-- Take over the value of a field. -/
def absorb (r : JobRecord) (f : Wire.Field) : Option JobRecord :=
  if f.number = 1 then f.value.number?.map fun n => { r with id := UInt64.ofNat n }
  else if f.number = 2 then f.value.text?.map fun s => { r with target := s }
  else if f.number = 3 then f.value.number?.map fun n => { r with state := UInt32.ofNat n }
  else if f.number = 4 then f.value.number?.map fun n => { r with currentStep := UInt32.ofNat n }
  else if f.number = 5 then
    (f.value.bytes?.bind StepRecord.ofBytes?).map fun s => { r with steps := r.steps ++ [s] }
  else if f.number = 6 then f.value.text?.map fun s => { r with lastError := s }
  else if f.number = 7 then f.value.number?.map fun n => { r with updatedAtMs := UInt64.ofNat n }
  else some r

/-- Read the binary form. -/
def ofBytes? (b : Bytes) : Option JobRecord :=
  (Wire.readFields Wire.bodyDepth b).bind fun fields => fields.foldlM absorb blank

end JobRecord

end Flotilla
