import Flotilla.Proofs.Store.Versions

/-!
# Stores that take all commits

A store of which no commit is made to fail takes every commit whose reads are still current
(`UnreliableStore.TakesCommits.commit_of_current`), in particular one that does not depend on what
was read, and goes on doing so, whatever else is asked of it.
-/

namespace Flotilla

namespace UnreliableStore

/-- No outage makes a commit fail. -/
def TakesCommits (s : UnreliableStore) : Prop := ∀ o ∈ s.outages, o.call ≠ .commit

variable {s : UnreliableStore}

private theorem call_of_mem_judge {call : StoreCall} {number : Nat} {keys : List String}
    {outages : List Outage} {o : Outage} (h : o ∈ (Outage.judge call number keys outages).2) :
    ∃ o' ∈ outages, o.call = o'.call := by
  induction outages with
  | nil => cases h
  | cons first rest ih =>
    rw [Outage.judge] at h
    split at h
    · rcases List.mem_cons.1 h with rfl | hrest
      · exact ⟨first, List.mem_cons_self, rfl⟩
      · exact ⟨o, List.mem_cons_of_mem _ hrest, rfl⟩
    · rcases List.mem_cons.1 h with rfl | hrest
      · exact ⟨o, List.mem_cons_self, rfl⟩
      · obtain ⟨o', ho', hcall⟩ := ih hrest
        exact ⟨o', List.mem_cons_of_mem _ ho', hcall⟩

/-- A store that takes commits goes on taking them, whatever is asked of it. -/
theorem TakesCommits.judge (h : s.TakesCommits) (call : StoreCall) (number : Nat)
    (keys : List String) : (s.judge call number keys).2.TakesCommits := by
  intro o ho
  obtain ⟨o', ho', hcall⟩ := call_of_mem_judge ho
  rw [hcall]
  exact h o' ho'

/-- Reading leaves a store that takes commits one that does. -/
theorem TakesCommits.read (h : s.TakesCommits) (key : String) : (s.read key).2.TakesCommits := by
  have hjudge := h.judge .read 0 [key]
  unfold UnreliableStore.read
  generalize s.judge .read 0 [key] = r at hjudge ⊢
  obtain ⟨fault, s'⟩ := r
  cases fault <;> exact hjudge

/-- Scanning leaves a store that takes commits one that does. -/
theorem TakesCommits.scan (h : s.TakesCommits) (start : String) :
    (s.scan start).2.TakesCommits := by
  have hjudge := h.judge .scan 0 [start]
  unfold UnreliableStore.scan
  generalize s.judge .scan 0 [start] = r at hjudge ⊢
  obtain ⟨fault, s'⟩ := r
  cases fault <;> exact hjudge

/-- Committing leaves a store that takes commits one that does. -/
theorem TakesCommits.commitBehind (h : s.TakesCommits) (writes : List Write)
    (reads : Table String (Option Nat)) : (s.commitBehind writes reads).2.TakesCommits := by
  unfold UnreliableStore.commitBehind
  split <;> exact h

private theorem judge_commit_eq {outages : List Outage} (h : ∀ o ∈ outages, o.call ≠ .commit)
    (number : Nat) (keys : List String) :
    Outage.judge .commit number keys outages = (none, outages) := by
  induction outages with
  | nil => rfl
  | cons o rest ih =>
    have hpicks : o.picks .commit number keys = false := by
      rw [Outage.picks, decide_eq_false (h o List.mem_cons_self)]
      rfl
    rw [Outage.judge, hpicks, if_neg Bool.false_ne_true,
      ih fun o' ho' => h o' (List.mem_cons_of_mem _ ho')]

/-- A commit is taken when every version that was read is still the current one. -/
theorem TakesCommits.commit_of_current (h : s.TakesCommits) (writes : List Write)
    {reads : Table String (Option Nat)}
    (hcurrent : ∀ key version, reads.get? key = some version → s.store.version? key = version) :
    s.commit writes reads = (.ok (), { s with
      store := writes.foldl Store.apply s.store, commits := s.commits + 1 }) := by
  unfold UnreliableStore.commit UnreliableStore.judge
  dsimp only
  rw [judge_commit_eq h]
  dsimp only
  rw [Store.commit_eq_ok_iff.2 ⟨rfl, hcurrent⟩]

/-- A commit that does not depend on what was read is taken. -/
theorem TakesCommits.commit (h : s.TakesCommits) (writes : List Write) :
    s.commit writes ∅ = (.ok (), { s with
      store := writes.foldl Store.apply s.store, commits := s.commits + 1 }) :=
  h.commit_of_current writes nofun

end UnreliableStore

end Flotilla
