import Flotilla.Behaviour

/-!
# The chronicle

What happened in a fleet, in order and with its time. The chronicle only grows; it is read through
its strands, each of which keeps the events of one kind in their order.
-/

namespace Flotilla

/-- Something that happened. -/
inductive Event where
  /-- The broker took a message. -/
  | published (message : Message)
  /-- An observer was handed a message for its subscription. -/
  | delivered (subscription : Nat) (name : String) (message : Message)
  /-- A transaction committed. -/
  | committed (tx : Nat) (writes : List Write)
  /-- A job was recorded in this state, at this step. -/
  | recorded (job : JobId) (state : JobState) (step : Nat)
  /-- The notice of a record reached whoever reads the notices. -/
  | noticed (job : JobId) (state : JobState) (step : Nat)
  /-- A step left a note. -/
  | noted (job : JobId) (note : StepNote)
  /-- A caller learnt what its request came to. -/
  | settled (caller : Nat) (outcome : Outcome)
  /-- The end of the broker was noticed. -/
  | closed

/-- Events with their times, the earliest first. -/
abbrev Chronicle := List (Nat × Event)

namespace Chronicle

/-- The events that `pick` chooses, as what it makes of them. -/
def strand {α : Type} (pick : Event → Option α) (c : Chronicle) : List (Nat × α) :=
  c.filterMap fun e => (pick e.2).map (e.1, ·)

/-- A strand of two chronicles is the strand of the first followed by that of the second. -/
@[simp] theorem strand_append {α : Type} (pick : Event → Option α) (c d : Chronicle) :
    strand pick (c ++ d) = strand pick c ++ strand pick d := by
  simp [strand]

/-- A chronicle that grows twice by events of one kind grows by such events. -/
theorem append_trans {P : Event → Prop} {c d e : Chronicle}
    (hcd : ∃ events, d = c ++ events ∧ ∀ x ∈ events, P x.2)
    (hde : ∃ events, e = d ++ events ∧ ∀ x ∈ events, P x.2) :
    ∃ events, e = c ++ events ∧ ∀ x ∈ events, P x.2 := by
  obtain ⟨events, rfl, hevents⟩ := hcd
  obtain ⟨more, rfl, hmore⟩ := hde
  refine ⟨events ++ more, List.append_assoc c events more, fun x hx => ?_⟩
  rcases List.mem_append.1 hx with hold | hnew
  · exact hevents x hold
  · exact hmore x hnew

/-- The messages the broker took. -/
def publications : Chronicle → List (Nat × Message) := strand fun
  | .published m => some m
  | _ => none

@[simp] theorem publications_append (c d : Chronicle) :
    publications (c ++ d) = publications c ++ publications d :=
  strand_append _ c d

/-- The messages handed to observers, each with the subscription and the observer's name. -/
def deliveries : Chronicle → List (Nat × Nat × String × Message) := strand fun
  | .delivered subscription name m => some (subscription, name, m)
  | _ => none

/-- The states in which jobs were recorded, each with the step. -/
def records : Chronicle → List (Nat × JobId × JobState × Nat) := strand fun
  | .recorded job state step => some (job, state, step)
  | _ => none

@[simp] theorem records_append (c d : Chronicle) : records (c ++ d) = records c ++ records d :=
  strand_append _ c d

/-- The notices that have been read, each with the job, its state and the step. -/
def notices : Chronicle → List (Nat × JobId × JobState × Nat) := strand fun
  | .noticed job state step => some (job, state, step)
  | _ => none

@[simp] theorem notices_append (c d : Chronicle) : notices (c ++ d) = notices c ++ notices d :=
  strand_append _ c d

/-- The notes of steps. -/
def notes : Chronicle → List (Nat × JobId × StepNote) := strand fun
  | .noted job note => some (job, note)
  | _ => none

/-- What callers learnt. -/
def settlements : Chronicle → List (Nat × Nat × Outcome) := strand fun
  | .settled caller outcome => some (caller, outcome)
  | _ => none

/-- The times at which the end of the broker was noticed. -/
def closings (c : Chronicle) : List Nat := (strand (fun
  | .closed => some ()
  | _ => none) c).map (·.1)

end Chronicle

end Flotilla
