import Flotilla.Proofs.Requests.Service

/-!
# Whose requests come and go

Sending a request brings at most that one (`Correlator.Adds`), and calling off the requests of a job
settles exactly those (`Correlator.Revokes`). Either way the requests of every other job wait on
until the same deadlines, and no other job gets new ones (`Correlator.Untouched`).
-/

namespace Flotilla.Correlator

/-- At most requests of `owner` are sent. Whatever waited waits on, and nothing is settled. -/
structure Adds (owner : Option JobId) (c d : Correlator) : Prop where
  settled : d.settled = c.settled
  kept : ∀ key request, c.pending.get? key = some request →
    d.pending.get? key = some request ∧
      d.supervisor.queue.deadline? key = c.supervisor.queue.deadline? key
  fresh : ∀ key request, d.pending.get? key = some request →
    c.pending.get? key = some request ∨ request.owner = owner

/-- Exactly the requests of a job are called off. -/
structure Revokes (job : JobId) (c d : Correlator) : Prop where
  /-- Each of them is settled once, as cancelled, and nothing else is. -/
  settled : ∃ keys : List CorrelationKey, keys.Nodup ∧
    (∀ key, key ∈ keys ↔
      ∃ request, c.pending.get? key = some request ∧ request.owner = some job) ∧
    d.settled = c.settled ++ keys.map fun key => (key, .error (.cancelled key))
  gone : ∀ key request, c.pending.get? key = some request → request.owner = some job →
    d.pending.get? key = none ∧ d.supervisor.queue.deadline? key = none
  kept : ∀ key request, c.pending.get? key = some request → request.owner ≠ some job →
    d.pending.get? key = some request ∧
      d.supervisor.queue.deadline? key = c.supervisor.queue.deadline? key
  fresh : ∀ key request, d.pending.get? key = some request → c.pending.get? key = some request

/-- The requests of a job that wait, and when they time out, are as they were. -/
structure Untouched (job : JobId) (c d : Correlator) : Prop where
  pending : ∀ key request, request.owner = some job →
    (d.pending.get? key = some request ↔ c.pending.get? key = some request)
  deadline : ∀ key request, request.owner = some job → c.pending.get? key = some request →
    d.supervisor.queue.deadline? key = c.supervisor.queue.deadline? key

variable {owner : Option JobId} {job other : JobId} {b c d : Correlator}

private theorem Adds.of_eq (hsettled : d.settled = c.settled) (hpending : d.pending = c.pending)
    (hqueue : d.supervisor.queue = c.supervisor.queue) : Adds owner c d where
  settled := hsettled
  kept key request h := by rw [hpending, hqueue]; exact ⟨h, rfl⟩
  fresh key request h := Or.inl (hpending ▸ h)

/-- No request need be sent. -/
theorem Adds.refl (owner : Option JobId) (c : Correlator) : Adds owner c c := .of_eq rfl rfl rfl

/-- Requests of one owner may be sent one after the other. -/
theorem Adds.trans (h : Adds owner b c) (k : Adds owner c d) : Adds owner b d where
  settled := k.settled.trans h.settled
  kept key request hb := by
    obtain ⟨hc, hsame⟩ := h.kept key request hb
    obtain ⟨hd, hsame'⟩ := k.kept key request hc
    exact ⟨hd, hsame'.trans hsame⟩
  fresh key request hd := by
    rcases k.fresh key request hd with hc | howner
    · exact h.fresh key request hc
    · exact Or.inr howner

/-- A request that is added leaves those of other jobs alone. -/
theorem Adds.untouched (h : Adds owner c d) (howner : owner ≠ some job) : Untouched job c d where
  pending key request hjob := by
    refine ⟨fun hd => ?_, fun hc => (h.kept key request hc).1⟩
    refine (h.fresh key request hd).resolve_right fun hnew => howner ?_
    rw [← hnew, hjob]
  deadline key request _ hc := (h.kept key request hc).2

/-- Revoking the requests of a job leaves those of other jobs alone. -/
theorem Revokes.untouched (h : Revokes other c d) (hne : other ≠ job) : Untouched job c d := by
  have howner {request : Pending} (hjob : request.owner = some job) :
      request.owner ≠ some other := fun hother =>
    hne (Option.some.inj (hother.symm.trans hjob))
  exact
    { pending := fun key request hjob =>
        ⟨h.fresh key request, fun hc => (h.kept key request hc (howner hjob)).1⟩
      deadline := fun key request hjob hc => (h.kept key request hc (howner hjob)).2 }

/-- Sending a request adds at most that one; one that the channel refuses is withdrawn at once. -/
theorem adds_send {β : Type} (c : Correlator) (now : Nat) (publish : Message → Except Fault β)
    (request : Request) (timeout : Nat) :
    Adds request.owner c (c.send now publish request timeout).2 := by
  rw [send_eq]
  rcases c.enter_cases now request timeout with ⟨fault, he⟩ | ⟨handle, d, he, hentered⟩
  · rw [he]
    exact .of_eq rfl rfl rfl
  · rw [he]
    dsimp only
    have hne {key : CorrelationKey} {old : Pending} (h : c.pending.get? key = some old) :
        handle.key ≠ key := by
      rintro rfl
      cases hentered.fresh.symm.trans h
    have hd : Adds request.owner c d := by
      refine ⟨hentered.settled, fun key old h => ⟨?_, ?_⟩, fun key new h => ?_⟩
      · rw [hentered.pending, Table.get?_set_ne _ _ (hne h)]
        exact h
      · exact (hentered.deadline? key).trans (if_neg (hne h))
      · rw [hentered.pending, Table.get?_set] at h
        split at h
        · cases h
          exact Or.inr rfl
        · exact Or.inl h
    cases publish (d.message handle.key request now) with
    | ok channel => exact hd
    | error fault =>
      have hget := Table.get?_erase d.pending handle.key
      have hcancel := DeadlineQueue.deadline?_cancel d.supervisor.queue handle.key
      refine ⟨hd.settled, fun key old h => ?_, fun key new h => ?_⟩
      · obtain ⟨hkept, hsame⟩ := hd.kept key old h
        exact ⟨(hget key).trans ((if_neg (hne h)).trans hkept),
          (hcancel key).trans ((if_neg (hne h)).trans hsame)⟩
      · have hnew := (hget key).symm.trans h
        split at hnew
        · cases hnew
        · exact hd.fresh key new hnew

/-- A job owns each of its keys once. -/
theorem nodup_keysOwnedBy (c : Correlator) (job : JobId) : (c.keysOwnedBy job).Nodup :=
  (c.pending.filter fun _ p => p.owner = some job).nodup

/-- Under the keys of a job wait requests of the job. -/
theorem exists_of_mem_keysOwnedBy {key : CorrelationKey} (h : key ∈ c.keysOwnedBy job) :
    ∃ request, c.pending.get? key = some request ∧ request.owner = some job := by
  obtain ⟨⟨k, request⟩, hmem, rfl⟩ := List.mem_map.1 h
  obtain ⟨hin, howner⟩ := List.mem_filter.1 hmem
  exact ⟨request, (Table.get?_eq_some_iff _ _ _).2 hin, of_decide_eq_true howner⟩

/-- Calling off the requests of a job settles them one after the other. -/
theorem settled_cancelOwnedBy (c : Correlator) (job : JobId) :
    (c.cancelOwnedBy job).2.settled =
      c.settled ++ (c.keysOwnedBy job).map fun key => (key, .error (.cancelled key)) := by
  have hpending : ∀ key ∈ c.keysOwnedBy job, ∃ request, c.pending.get? key = some request :=
    fun key hkey => (exists_of_mem_keysOwnedBy hkey).imp fun _ h => h.1
  have hnodup := c.nodup_keysOwnedBy job
  unfold cancelOwnedBy
  generalize c.keysOwnedBy job = keys at hpending hnodup
  suffices hall : ∀ (count : Nat) (b : Correlator),
      (∀ key ∈ keys, ∃ request, b.pending.get? key = some request) →
      (keys.foldl (fun r key =>
        (if (r.2.cancel key).1 then r.1 + 1 else r.1, (r.2.cancel key).2)) (count, b)).2.settled =
          b.settled ++ keys.map fun key => (key, .error (.cancelled key)) from
    hall 0 c hpending
  clear hpending
  induction keys with
  | nil => exact fun _ b _ => (List.append_nil b.settled).symm
  | cons key keys ih =>
    intro count b hpending
    obtain ⟨hkey, hkeys⟩ := List.nodup_cons.1 hnodup
    obtain ⟨request, hrequest⟩ := hpending key List.mem_cons_self
    have hcancelled : (b.cancel key).2.settled =
        b.settled ++ [(key, .error (.cancelled key))] := by
      rw [cancel, hrequest]
      rfl
    rw [List.foldl_cons, ih hkeys, hcancelled, List.append_assoc]
    · rfl
    · intro k hk
      have hne : key ≠ k := fun heq => hkey (heq ▸ hk)
      obtain ⟨request', hrequest'⟩ := hpending k (List.mem_cons_of_mem _ hk)
      exact ⟨request', (get?_pending_cancel b key k).trans ((if_neg hne).trans hrequest')⟩

/-- Calling off the requests of a job settles exactly those. -/
theorem Aligned.revokes (h : c.Aligned) (job : JobId) : Revokes job c (c.cancelOwnedBy job).2 where
  settled := by
    refine ⟨c.keysOwnedBy job, c.nodup_keysOwnedBy job, fun key => ⟨exists_of_mem_keysOwnedBy, ?_⟩,
      c.settled_cancelOwnedBy job⟩
    rintro ⟨request, hrequest, howner⟩
    exact (mem_keysOwnedBy_iff hrequest job).2 howner
  gone key request hrequest howner := by
    have hgone := c.get?_pending_cancelOwnedBy job key
    rw [if_pos ((mem_keysOwnedBy_iff hrequest job).2 howner)] at hgone
    exact ⟨hgone, ((h.cancelOwnedBy job).deadline?_eq_none_iff key).2 hgone⟩
  kept key request hrequest howner := by
    have hkept := c.get?_pending_cancelOwnedBy job key
    rw [if_neg fun hmem => howner ((mem_keysOwnedBy_iff hrequest job).1 hmem), hrequest] at hkept
    exact ⟨hkept, (retains_cancelOwnedBy c job key request hkept).2⟩
  fresh key request hrequest := (retains_cancelOwnedBy c job key request hrequest).1

end Flotilla.Correlator
