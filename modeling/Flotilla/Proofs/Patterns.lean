import Flotilla.Proofs.Topics

/-!
# What a pattern covers

Read as a whole, a pattern says which levels a topic has to have: one for each of its own levels,
or, when its last level stands for all the rest, at least one for each level before that
(`Topic.Means`). Going through the levels of both from the left comes to the same
(`Topic.covers_iff_means`), with empty levels, and levels of the topic that look like wildcards,
taken as any others.
-/

namespace Flotilla.Topic

/-- Each of the first `n` levels of a pattern stands for any level or for that of the topic at its
place. -/
def AgreeUpTo (n : Nat) (pattern topic : List Level) : Prop :=
  ∀ i < n, pattern[i]? = some anyLevel ∨ pattern[i]? = topic[i]?

/-- What a pattern means for a topic. Its first level that stands for all the rest has to be the
last one; the topic has at least as many levels as come before, and those agree. Without such a
level the pattern has as many levels as the topic, and all of them agree. -/
def Means (pattern topic : List Level) : Prop :=
  if anyRest ∈ pattern then
    pattern.idxOf anyRest + 1 = pattern.length ∧ pattern.idxOf anyRest ≤ topic.length ∧
      AgreeUpTo (pattern.idxOf anyRest) pattern topic
  else pattern.length = topic.length ∧ AgreeUpTo pattern.length pattern topic

variable {p t : Level} {pattern topic : List Level}

private theorem agreeUpTo_zero (pattern topic : List Level) : AgreeUpTo 0 pattern topic :=
  fun i hi => absurd hi (Nat.not_lt_zero i)

private theorem agreeUpTo_succ {n : Nat} : AgreeUpTo (n + 1) (p :: pattern) (t :: topic) ↔
    (p = anyLevel ∨ p = t) ∧ AgreeUpTo n pattern topic := by
  constructor
  · intro h
    refine ⟨by simpa using h 0 (Nat.succ_pos n), fun i hi => ?_⟩
    simpa using h (i + 1) (Nat.succ_lt_succ hi)
  · rintro ⟨hfirst, hrest⟩ i hi
    cases i with
    | zero => simpa using hfirst
    | succ i => simpa using hrest i (Nat.lt_of_succ_lt_succ hi)

/-- A level that stands for all the rest is enough for every topic, and has to be the last. -/
theorem means_anyRest : Means (anyRest :: pattern) topic ↔ pattern = [] := by
  rw [Means, if_pos List.mem_cons_self, List.idxOf_cons_self]
  simp [agreeUpTo_zero]

/-- Any other level needs a level of the topic. -/
theorem not_means_nil (hp : p ≠ anyRest) : ¬Means (p :: pattern) [] := by
  rw [Means]
  split
  · rw [List.idxOf_cons_ne _ hp]
    simp
  · simp

/-- It is compared with the first one. -/
theorem means_cons (hp : p ≠ anyRest) : Means (p :: pattern) (t :: topic) ↔
    (p = anyLevel ∨ p = t) ∧ Means pattern topic := by
  have hmem : anyRest ∈ p :: pattern ↔ anyRest ∈ pattern :=
    List.mem_cons.trans (or_iff_right hp.symm)
  by_cases h : anyRest ∈ pattern
  · rw [Means, Means, if_pos h, if_pos (hmem.2 h), List.idxOf_cons_ne _ hp, agreeUpTo_succ,
      List.length_cons, List.length_cons, Nat.succ_le_succ_iff, Nat.succ_inj]
    tauto
  · rw [Means, Means, if_neg h, if_neg (mt hmem.1 h), List.length_cons, List.length_cons,
      agreeUpTo_succ, Nat.succ_inj]
    tauto

/-- On levels, matching is what a pattern means. -/
theorem levelsMatch_iff_means (pattern topic : List Level) :
    levelsMatch pattern topic = true ↔ Means pattern topic := by
  induction pattern generalizing topic with
  | nil => cases topic <;> simp [levelsMatch, Means, agreeUpTo_zero]
  | cons p pattern ih =>
    by_cases hp : p = anyRest
    · rw [hp, means_anyRest, levelsMatch_cons_anyRest, List.isEmpty_iff]
    · cases topic with
      | nil =>
        rw [levelsMatch, if_neg hp]
        exact iff_of_false Bool.false_ne_true (not_means_nil hp)
      | cons t topic => simp [levelsMatch_cons hp, means_cons hp, ih]

/-- A pattern in which something comes after a level that stands for all the rest matches
nothing. -/
theorem not_levelsMatch {before after : List Level} (hafter : after ≠ []) (topic : List Level) :
    levelsMatch (before ++ anyRest :: after) topic = false := by
  induction before generalizing topic with
  | nil => rw [List.nil_append, levelsMatch_cons_anyRest, List.isEmpty_eq_false_iff.2 hafter]
  | cons p before ih =>
    rw [List.cons_append]
    by_cases hp : p = anyRest
    · simp [hp, levelsMatch_cons_anyRest]
    · cases topic with
      | nil => rw [levelsMatch, if_neg hp]
      | cons t topic => rw [levelsMatch_cons hp, ih, Bool.and_false]

/-- A pattern covers a topic exactly if that is what its levels mean. The levels of a text are the
only texts without slashes, at least one, that it is put together from with slashes. So a text that
is followed by a level for all the rest covers itself, unless it has such a level of its own, that
level alone covers everything, and one with something after it covers nothing. -/
theorem covers_iff_means (pattern topic : String) :
    (covers pattern topic = true ↔ Means (levels pattern) (levels topic)) ∧
      (∀ text pieces, levels text = pieces ↔
        pieces ≠ [] ∧ (∀ level ∈ pieces, '/' ∉ level) ∧ Text.join '/' pieces = text.toList) ∧
      (covers (pattern ++ "/" ++ "#") pattern = true ↔ anyRest ∉ levels pattern) ∧
      covers "#" topic = true ∧
      ¬∃ before after, levels pattern = before ++ anyRest :: after ∧ after ≠ [] ∧
        covers pattern topic = true := by
  refine ⟨levelsMatch_iff_means _ _, fun text pieces => Text.split_eq_iff, ?_, ?_, ?_⟩
  · have hself : levelsMatch (levels pattern ++ [anyRest]) (levels pattern ++ []) = true ↔
        levelsMatch [anyRest] [] = true ∧ anyRest ∉ levels pattern :=
      levelsMatch_append_iff (List.cons_ne_nil anyRest []) []
    have hlevels : levels "#" = [anyRest] := rfl
    rw [List.append_nil] at hself
    rw [covers, levels_append, hlevels, hself]
    exact and_iff_right (levelsMatch_anyRest [])
  · exact levelsMatch_anyRest (levels topic)
  · rintro ⟨before, after, hlevels, hafter, hcovers⟩
    rw [covers, hlevels, not_levelsMatch hafter] at hcovers
    cases hcovers

/-- An empty level is a level. -/
example : covers "a/+" "a/" = true ∧ covers "a/+" "a" = false ∧ covers "a/" "a" = false := by decide

end Flotilla.Topic
