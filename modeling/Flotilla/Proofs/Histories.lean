import Mathlib.Data.List.Basic
import Mathlib.Order.Monotone.Basic

/-!
# Histories and rows of moments

A history records what happens with the earliest first, so what has happened by a later moment has
that of an earlier one at its front. What is read off a history one entry at a time grows in the
same way.
-/

namespace Flotilla

section

variable {α β : Type} {f : α → Option β} {l : List α} {x : α}

/-- What is read off a history is not changed by an entry that has nothing to read. -/
theorem filterMap_concat_of_none (h : f x = none) : (l ++ [x]).filterMap f = l.filterMap f := by
  rw [List.filterMap_append, List.filterMap_cons_none h, List.filterMap_nil, List.append_nil]

/-- What is read off an entry comes at the end of what is read off the history. -/
theorem filterMap_concat_of_some {y : β} (h : f x = some y) :
    (l ++ [x]).filterMap f = l.filterMap f ++ [y] := by
  rw [List.filterMap_append, List.filterMap_cons_some h, List.filterMap_nil]

/-- A list with something at a place has it at its end or had it before. -/
theorem split_concat {before after : List α} {y : α} (h : l ++ [x] = before ++ y :: after) :
    before = l ∧ y = x ∧ after = [] ∨ ∃ rest, after = rest ++ [x] ∧ l = before ++ y :: rest := by
  rcases List.eq_nil_or_concat after with rfl | ⟨rest, z, rfl⟩
  · obtain ⟨hbefore, hlast⟩ := List.append_inj' h rfl
    exact Or.inl ⟨hbefore.symm, (List.singleton_inj.1 hlast).symm, rfl⟩
  · rw [List.concat_eq_append, ← List.cons_append, ← List.append_assoc] at h
    obtain ⟨hbefore, hlast⟩ := List.append_inj' h rfl
    cases List.singleton_inj.1 hlast
    exact Or.inr ⟨rest, List.concat_eq_append, hbefore⟩

end

/-- What holds until something happens holds for ever, or that happens. -/
theorem holds_or_happens {P Q : Nat → Prop} {n : Nat} (hn : P n)
    (hnext : ∀ m ≥ n, P m → P (m + 1) ∨ Q (m + 1)) {m : Nat} (hm : n ≤ m) :
    P m ∨ ∃ k ≥ n, Q k := by
  induction m, hm using Nat.le_induction with
  | base => exact Or.inl hn
  | succ m hm ih =>
    rcases ih with hP | hQ
    · exact (hnext m hm hP).imp_right fun hQ => ⟨m + 1, Nat.le_succ_of_le hm, hQ⟩
    · exact Or.inr hQ

/-- Histories that only grow from one moment to the next have each earlier one in front. -/
theorem isPrefix_of_le {α : Type} {f : Nat → List α}
    (hnext : ∀ n, f n <+: f (n + 1)) {n m : Nat} (h : n ≤ m) :
    f n <+: f m := by
  induction m, h using Nat.le_induction with
  | base => exact List.prefix_rfl
  | succ m _ ih => exact ih.trans (hnext m)

end Flotilla
