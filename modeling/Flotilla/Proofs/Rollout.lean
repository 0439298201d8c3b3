import Flotilla.Proofs.Fleet.Decisions
import Flotilla.Rollout

/-!
# A rollout spares job records

The steps of a rollout send commands and keep the versions of devices in the store. None of them
writes under the key of a job record, so a fleet with the rollout's definitions, and with others
that spare job records, is one whose records are its own (`Rollout.spares_register`).
-/

namespace Flotilla

/-- A program that spares job records, followed by others that do. -/
theorem Program.Spares.bind {α β : Type} {p : Program Stepping α} (hp : p.Spares)
    {f : α → Program Stepping β} (hf : ∀ a, (f a).Spares) : (p.bind f).Spares := by
  induction p with
  | done value => exact hf value
  | ask question next ih =>
    cases question with
    | storing q =>
      cases q with
      | store q => exact ⟨hp.1, fun now m => ih _ (hp.2 now m)⟩
      | sleep span => exact ih () hp
    | send command payload timeout => exact fun answer => ih answer (hp answer)
    | await key => exact fun answer => ih answer (hp answer)
    | stopSelf => exact fun answer => ih answer (hp answer)
    | note note => exact ih () hp

private theorem Stepping.spares_request (command : String) (payload : Bytes) (timeout : Nat) :
    (request command payload timeout).Spares := by
  intro answer
  cases answer with
  | error fault => trivial
  | ok key => exact fun _ => trivial

namespace Rollout

/-- The key of a version is not that of a job record. -/
theorem not_isJobKey_versionKey (target : String) : ¬IsJobKey (versionKey target) := by
  intro h
  rw [IsJobKey, startsWith, versionKey, String.toList_append, String.toList_append] at h
  cases h

private theorem spares_order (ctx : StepContext) (command payload : String) :
    (order ctx command payload).Spares := by
  refine (Stepping.spares_request command _ _).bind fun answer => ?_
  cases answer <;> trivial

private theorem spares_deploy (ctx : StepContext) : (deploy ctx).Spares := by
  unfold deploy
  split
  · trivial
  · split
    · trivial
    · exact spares_order ctx _ _

private theorem spares_restart (ctx : StepContext) : (restart ctx).Spares := by
  unfold restart
  split
  · trivial
  · exact spares_order ctx _ _

/-- The transaction that keeps a version writes the key of that version and no other. -/
theorem spares_keepVersion (target expected : String) :
    (Stepping.storing (Storing.transact
      (fun tx => pure (.ok (), tx.put (versionKey target) (Text.utf8 expected), ()))
      ([] : List (Hook Unit Unit)))).Spares := by
  refine ⟨trivial, fun now m => ⟨?_, fun now' m' => ?_⟩⟩
  · intro w hw
    obtain rfl := List.mem_singleton.1 hw
    exact not_isJobKey_versionKey target
  · generalize (StoreAsk.answer now' m' _).1 = answer
    cases answer with
    | error fault => trivial
    | ok store => exact ⟨trivial, fun _ _ => trivial⟩

private theorem spares_verify (ctx : StepContext) : (verify ctx).Spares := by
  unfold verify
  split
  · trivial
  · refine (Stepping.spares_request "status" _ _).bind fun answer => ?_
    cases answer with
    | error fault => trivial
    | ok reply =>
      dsimp only
      split
      · trivial
      · exact (spares_keepVersion _ _).bind fun _ => trivial

/-- Each of the steps of a rollout spares job records. -/
theorem spares_of_mem {d : StepDefinition} (h : d ∈ definitions) : d.Spares := by
  simp only [definitions, List.mem_cons, List.not_mem_nil, or_false] at h
  rcases h with rfl | rfl | rfl
  · exact spares_deploy
  · exact spares_verify
  · exact spares_restart

/-- With the definitions of a rollout, a registry spares job records if it did without them. -/
theorem spares_register {r r' : Registry} (h : r.Spares) (hr : register r = .ok r') :
    r'.Spares :=
  Registry.All.registerAll h (fun _ hd => spares_of_mem hd) hr

/-- A registry of steps of a rollout and no others spares job records. -/
theorem spares_of_all {r : Registry} (h : r.All (· ∈ definitions)) : r.Spares :=
  fun key d hlookup => spares_of_mem (h key d hlookup)

end Rollout

end Flotilla
