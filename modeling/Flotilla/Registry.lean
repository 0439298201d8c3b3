import Flotilla.Behaviour
import Flotilla.Text.Quoted

/-!
# Step definitions

A definition gives a kind of steps its key, the properties it may have and its behaviour. A
registry holds definitions under distinct keys.
-/

namespace Flotilla

/-- A kind of steps. -/
structure StepDefinition where
  /-- Its key. -/
  key : String
  /-- The names of the properties it may have. -/
  properties : List String
  /-- What its steps do. -/
  behaviour : Behaviour

namespace StepDefinition

/-- Whether a property may be set. -/
def declares (d : StepDefinition) (name : String) : Bool := d.properties.contains name

/-- The properties of a step that the definition declares. -/
def declared (d : StepDefinition) (properties : Table String String) : Table String String :=
  properties.filter fun name _ => d.declares name

/-- The definition in words. -/
def describe (d : StepDefinition) : String :=
  "StepDefinition \x7b key: " ++ Text.quoted d.key ++ ", property_keys: [" ++
    ", ".intercalate (d.properties.map Text.quoted) ++ "] \x7d"

end StepDefinition

/-- Definitions under their keys. -/
structure Registry where
  /-- The definitions. -/
  definitions : Table String StepDefinition

namespace Registry

/-- The registry without definitions. -/
def empty : Registry := ⟨∅⟩

instance : Inhabited Registry := ⟨empty⟩

/-- Add a definition; its key has to be new. -/
def register (r : Registry) (d : StepDefinition) : Except Fault Registry :=
  if r.definitions.contains d.key then .error (.duplicateStepDefinition d.key)
  else .ok ⟨r.definitions.set d.key d⟩

/-- The definition with a key. -/
def lookup (r : Registry) (key : String) : Except Fault StepDefinition :=
  match r.definitions.get? key with
  | some d => .ok d
  | none => .error (.unknownStepDefinition key)

/-- The keys in order. -/
def keys (r : Registry) : List String := r.definitions.keys.mergeSort fun a b => a ≤ b

/-- How many definitions there are. -/
def size (r : Registry) : Nat := r.definitions.size

/-- Whether there is no definition. -/
def isEmpty (r : Registry) : Bool := r.definitions.isEmpty

end Registry

end Flotilla
