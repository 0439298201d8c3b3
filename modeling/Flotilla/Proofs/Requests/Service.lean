import Flotilla.Proofs.Requests.Handles

/-!
# What an operation can do to requests

Whatever an operation does, outcomes stay what they are, and a request that waited waits on or has
an outcome; a request that waits and did not wait before was sent for the job on whose behalf the
operation acts (`Correlator.Serves`). Calling off the requests of a job leaves none of them.
-/

namespace Flotilla.Correlator

/-- What an operation that acts for `owner` can do to the requests. -/
structure Serves (owner : Option JobId) (c d : Correlator) : Prop where
  config : d.config = c.config
  /-- Keys are given out one after the other. -/
  sent : c.sent ≤ d.sent
  aligned : c.Aligned → d.Aligned
  outcome : ∀ key outcome, c.outcome? key = some outcome → d.outcome? key = some outcome
  /-- What waited waits on or has an outcome. -/
  kept : ∀ key request, c.pending.get? key = some request →
    d.pending.get? key = some request ∨ (d.outcome? key).isSome
  /-- It waits on until the same deadline. -/
  deadline : c.Aligned → ∀ key request, c.pending.get? key = some request →
    (d.outcome? key).isSome ∨
      d.supervisor.queue.deadline? key = c.supervisor.queue.deadline? key
  /-- What waits and did not wait before belongs to `owner`. -/
  fresh : ∀ key request, d.pending.get? key = some request →
    c.pending.get? key = some request ∨ request.owner = owner

variable {owner : Option JobId} {b c d : Correlator}

private theorem Serves.of_eq (hconfig : d.config = c.config) (hsent : c.sent ≤ d.sent)
    (hqueue : d.supervisor.queue = c.supervisor.queue) (hpending : d.pending = c.pending)
    (hsettled : d.settled = c.settled) : Serves owner c d where
  config := hconfig
  sent := hsent
  aligned h := h.congr hqueue hpending
  outcome key outcome h := by rwa [outcome?, hsettled]
  kept key request h := Or.inl (hpending ▸ h)
  deadline _ _ _ _ := Or.inr (by rw [hqueue])
  fresh key request h := Or.inl (hpending ▸ h)

/-- Whoever acts for somebody may do nothing. -/
theorem Serves.refl (owner : Option JobId) (c : Correlator) : Serves owner c c :=
  .of_eq rfl (Nat.le_refl _) rfl rfl rfl

/-- Two operations that act for the same owner can do no more than one. -/
theorem Serves.trans (h : Serves owner b c) (k : Serves owner c d) : Serves owner b d where
  config := k.config.trans h.config
  sent := Nat.le_trans h.sent k.sent
  aligned hb := k.aligned (h.aligned hb)
  outcome key outcome hb := k.outcome key outcome (h.outcome key outcome hb)
  kept key request hb := by
    rcases h.kept key request hb with hc | hc
    · exact k.kept key request hc
    · obtain ⟨outcome, hout⟩ := Option.isSome_iff_exists.1 hc
      exact Or.inr (Option.isSome_iff_exists.2 ⟨outcome, k.outcome key outcome hout⟩)
  deadline ha key request hb := by
    have hsettled (hc : (c.outcome? key).isSome) : (d.outcome? key).isSome := by
      obtain ⟨outcome, hout⟩ := Option.isSome_iff_exists.1 hc
      exact Option.isSome_iff_exists.2 ⟨outcome, k.outcome key outcome hout⟩
    rcases h.kept key request hb, h.deadline ha key request hb with
      ⟨hc | hc, hsame | hsame⟩
    · exact Or.inl (hsettled hsame)
    · exact (k.deadline (h.aligned ha) key request hc).imp_right (·.trans hsame)
    · exact Or.inl (hsettled hc)
    · exact Or.inl (hsettled hc)
  fresh key request hd := by
    rcases k.fresh key request hd with hc | hc
    · exact h.fresh key request hc
    · exact Or.inr hc

/-- A request that has left has an outcome. -/
theorem Settles.isSome_of_left {fate : Fate} (h : Settles fate c d) (hfate : fate.ending?.isSome)
    {key : CorrelationKey} {request : Pending} (hc : c.pending.get? key = some request)
    (hd : d.pending.get? key = none) : (d.outcome? key).isSome := by
  have hgone : ¬d.pending.contains key = true := by
    rw [Bool.not_eq_true, Table.contains_eq_false_iff]
    exact hd
  rw [h.outcome, if_neg hgone, hc, Option.bind_some, Option.isSome_or,
    Fate.outcome?_isSome hfate, Bool.or_true]

/-- Requests that are settled leave with an outcome, and no other comes. -/
theorem Settles.serves {fate : Fate} (h : Settles fate c d) (hfate : fate.ending?.isSome)
    (ha : c.Aligned → d.Aligned) (hr : c.Aligned → Retains c d) : Serves owner c d where
  config := h.config
  sent := Nat.le_of_eq h.sent.symm
  aligned := ha
  outcome key outcome hc := by rw [h.outcome, hc, Option.some_or]
  kept key request hc := by
    cases hd : d.pending.get? key with
    | some request' => exact Or.inl (congrArg some (Option.some.inj
        ((h.get?_of_some hd).symm.trans hc)))
    | none => exact Or.inr (h.isSome_of_left hfate hc hd)
  deadline hc key request hp := by
    cases hd : d.pending.get? key with
    | some request' => exact Or.inr (hr hc key request' hd).2
    | none => exact Or.inl (h.isSome_of_left hfate hp hd)
  fresh key request hd := Or.inl (h.get?_of_some hd)

/-- A message that comes in settles at most a request, and makes none. -/
theorem serves_onMessage (c : Correlator) (now : Nat) (m : Message) :
    Serves owner c (c.onMessage now m) :=
  (settles_onMessage c now m).serves rfl (fun h => h.onMessage now m)
    fun _ => retains_onMessage c now m

/-- Cancelling a request settles it, and makes none. -/
theorem serves_cancel (c : Correlator) (key : CorrelationKey) : Serves owner c (c.cancel key).2 :=
  (settles_cancel c key).serves rfl (fun h => h.cancel key) fun _ => retains_cancel c key

/-- Cancelling the requests of a job settles them, and makes none. -/
theorem serves_cancelOwnedBy (c : Correlator) (job : JobId) :
    Serves owner c (c.cancelOwnedBy job).2 :=
  (settles_cancelOwnedBy c job).serves rfl (fun h => h.cancelOwnedBy job) fun _ =>
    retains_cancelOwnedBy c job

/-- Tearing down settles whatever waits, and makes no request. -/
theorem serves_close (c : Correlator) : Serves owner c c.close.2 :=
  (settles_close c).serves rfl (fun h => h.close) fun _ => retains_close c

/-- Letting deadlines go settles requests whose time is over, and makes none. -/
theorem serves_pollDeadlines (c : Correlator) (now : Nat) : Serves owner c (c.pollDeadlines now) :=
  (settles_pollDeadlines c now).serves rfl (fun h => h.pollDeadlines now) fun h =>
    h.retains_pollDeadlines now

/-- A request that is settled has an outcome. -/
theorem isSome_outcome?_settle (c : Correlator) (key : CorrelationKey) (outcome : Outcome) :
    ((c.settle key outcome).outcome? key).isSome := by
  change (Table.lookup key (c.settled ++ [(key, outcome)])).isSome
  rw [Table.lookup_append, Table.lookup, if_pos rfl, Option.isSome_or, Option.isSome_some,
    Bool.or_true]

/-- Giving one request up. -/
theorem serves_drop_settle (c : Correlator) (key : CorrelationKey) (outcome : Outcome) :
    Serves owner c ((c.drop key).settle key outcome) where
  config := rfl
  sent := Nat.le_refl _
  aligned h := (h.drop key).congr rfl rfl
  outcome x out h := by
    change Table.lookup x (c.settled ++ [(key, outcome)]) = some out
    rw [Table.lookup_append]
    rw [outcome?] at h
    rw [h, Option.some_or]
  kept x request h := by
    have hget := Table.get?_erase c.pending key x
    by_cases hx : key = x
    · subst hx
      exact Or.inr (isSome_outcome?_settle ..)
    · rw [if_neg hx] at hget
      exact Or.inl (hget.trans h)
  deadline _ x request h := by
    by_cases hx : key = x
    · subst hx
      exact Or.inl (isSome_outcome?_settle ..)
    · have hdeadline := DeadlineQueue.deadline?_cancel c.supervisor.queue key x
      rw [if_neg hx] at hdeadline
      exact Or.inr hdeadline
  fresh x request h := by
    have hget := Table.get?_erase c.pending key x
    change (c.pending.erase key).get? x = some request at h
    rw [hget] at h
    split at h
    · cases h
    · exact Or.inl h

/-- Giving up settles whatever waits, and makes no request. -/
theorem serves_abandon (c : Correlator) : Serves owner c c.abandon := by
  unfold abandon
  generalize c.pending.entries = entries
  induction entries generalizing c with
  | nil => exact .refl owner c
  | cons e entries ih => exact (serves_drop_settle c e.1 _).trans (ih _)

/-- Sending a request brings at most that request, and it belongs to its owner. -/
theorem serves_send {β : Type} (c : Correlator) (now : Nat) (publish : Message → Except Fault β)
    (request : Request) (timeout : Nat) :
    Serves request.owner c (c.send now publish request timeout).2 := by
  rw [send_eq]
  rcases c.enter_cases now request timeout with ⟨fault, he⟩ | ⟨handle, d, he, hentered⟩
  · rw [he]
    exact .of_eq rfl (Nat.le_succ _) rfl rfl rfl
  · rw [he]
    dsimp only
    have hne {key : CorrelationKey} {old : Pending} (h : c.pending.get? key = some old) :
        handle.key ≠ key := by
      rintro rfl
      rw [hentered.fresh] at h
      cases h
    have hd : Serves request.owner c d := by
      have hsent : c.sent ≤ d.sent := hentered.sent ▸ Nat.le_succ _
      refine ⟨hentered.config, hsent, fun h => h.entered hentered, ?_, ?_, ?_, ?_⟩
      · intro key outcome h
        rwa [outcome?, hentered.settled]
      · intro key old h
        rw [hentered.pending, Table.get?_set_ne _ _ (hne h)]
        exact Or.inl h
      · intro _ key old h
        exact Or.inr ((hentered.deadline? key).trans (if_neg (hne h)))
      · intro key new h
        rw [hentered.pending, Table.get?_set] at h
        split at h
        · cases h
          exact Or.inr rfl
        · exact Or.inl h
    cases publish (d.message handle.key request now) with
    | ok channel => exact hd
    | error fault =>
      refine ⟨hd.config, hd.sent, fun h => (hd.aligned h).drop handle.key, hd.outcome, ?_, ?_, ?_⟩
      · intro key old h
        have hget := Table.get?_erase d.pending handle.key key
        rw [if_neg (hne h)] at hget
        rcases hd.kept key old h with hk | hk
        · exact Or.inl (hget.trans hk)
        · exact Or.inr hk
      · intro hc key old h
        have hcancel := DeadlineQueue.deadline?_cancel d.supervisor.queue handle.key key
        rw [if_neg (hne h)] at hcancel
        exact (hd.deadline hc key old h).imp_right (hcancel.trans ·)
      · intro key new h
        have hget := Table.get?_erase d.pending handle.key key
        change (d.pending.erase handle.key).get? key = some new at h
        rw [hget] at h
        split at h
        · cases h
        · exact hd.fresh key new h

/-- No request of a job waits. -/
def Clear (job : JobId) (c : Correlator) : Prop :=
  ∀ key request, c.pending.get? key = some request → request.owner ≠ some job

/-- What is done for somebody else brings no request of the job. -/
theorem Clear.serves {job : JobId} (h : c.Clear job) (hs : Serves owner c d)
    (howner : owner ≠ some job) : d.Clear job := by
  intro key request hd
  rcases hs.fresh key request hd with hc | hc
  · exact h key request hc
  · exact hc ▸ howner

/-- Cancelling takes the one request out of the table. -/
theorem get?_pending_cancel (c : Correlator) (key x : CorrelationKey) :
    (c.cancel key).2.pending.get? x = if key = x then none else c.pending.get? x := by
  unfold cancel
  split
  · next hn =>
    split
    · next hx => rw [← hx, hn]
    · rfl
  · exact Table.get?_erase c.pending key x

/-- What waits after the requests of a job have been called off. -/
theorem get?_pending_cancelOwnedBy (c : Correlator) (job : JobId) (x : CorrelationKey) :
    (c.cancelOwnedBy job).2.pending.get? x =
      if x ∈ c.keysOwnedBy job then none else c.pending.get? x := by
  unfold cancelOwnedBy
  generalize c.keysOwnedBy job = keys
  suffices hall : ∀ (count : Nat) (b : Correlator), (keys.foldl (fun r key =>
      (if (r.2.cancel key).1 then r.1 + 1 else r.1, (r.2.cancel key).2)) (count, b)).2.pending.get?
        x = if x ∈ keys then none else b.pending.get? x from hall 0 c
  induction keys with
  | nil => exact fun _ _ => rfl
  | cons key keys ih =>
    intro count b
    rw [List.foldl_cons, ih, get?_pending_cancel]
    by_cases hx : key = x
    · rw [if_pos hx, ite_self, if_pos (hx ▸ List.mem_cons_self)]
    · simp only [List.mem_cons, Ne.symm hx, false_or, hx, if_false]

/-- A request that waits is one of a job exactly if the job owns it. -/
theorem mem_keysOwnedBy_iff {key : CorrelationKey} {request : Pending}
    (h : c.pending.get? key = some request) (job : JobId) :
    key ∈ c.keysOwnedBy job ↔ request.owner = some job := by
  have hmem := (Table.get?_eq_some_iff _ _ _).1 h
  constructor
  · intro hkey
    obtain ⟨⟨k, owned⟩, he, rfl⟩ := List.mem_map.1 hkey
    obtain ⟨hin, howner⟩ := List.mem_filter.1 he
    rw [(Table.get?_eq_some_iff _ _ _).2 hin, Option.some.injEq] at h
    exact h ▸ of_decide_eq_true howner
  · intro howner
    refine List.mem_map_of_mem (f := Prod.fst) (a := (key, request)) ?_
    exact List.mem_filter.2 ⟨hmem, decide_eq_true howner⟩

/-- Calling off the requests of a job leaves none of them. -/
theorem clear_cancelOwnedBy (c : Correlator) (job : JobId) : (c.cancelOwnedBy job).2.Clear job := by
  intro key request hrequest howner
  rw [get?_pending_cancelOwnedBy] at hrequest
  split at hrequest
  · cases hrequest
  · next hnot => exact hnot ((mem_keysOwnedBy_iff hrequest job).2 howner)

end Flotilla.Correlator
