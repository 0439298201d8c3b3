import Flotilla.Supervisor
import Mathlib.Algebra.Order.Floor.Div

/-!
# Deadlines on whole ticks

A deadline is the first whole tick that is not before the time asked for, so it is never early and
never a full tick late. Ticks count from the making of the supervisor; one that is too far from
there to be told is not used, and then the deadline is not rounded. Where the one gives way to the
other the deadline still does not step back, because the times asked for are already past the last
tick that was used. All this is computed in words of limited width (`Supervisor.computed?`), in
which no product overflows.
-/

namespace Flotilla

/-- A number as a word of so many bits, if there is one. -/
def word? (bits n : Nat) : Option Nat := if n < 2 ^ bits then some n else none

private theorem word?_of_lt {bits n : Nat} (h : n < 2 ^ bits) : word? bits n = some n := if_pos h

private theorem word?_of_le {bits n : Nat} (h : 2 ^ bits ≤ n) : word? bits n = none :=
  if_neg (Nat.not_lt.2 h)

/-- An instant on a clock that comes to its end at `last`. -/
def instant? (last t : Nat) : Option Nat := if t ≤ last then some t else none

private theorem instant?_of_le {last t : Nat} (h : t ≤ last) : instant? last t = some t := if_pos h

namespace Supervisor

variable {α : Type}

/-- When something would be over that may take `timeout` from `now` on, and no longer than the
longest time for a deadline. -/
def asked (now timeout : Nat) : Nat := now + min timeout maxTimeout

/-- The ticks from the making of the supervisor up to the first that is not before a time, as a
span. -/
def rounded (s : Supervisor α) (raw : Nat) : Nat :=
  (raw - s.origin) ⌈/⌉ s.granularity * s.granularity

/-- The deadline as it is computed: spans are words of 128 bits, and only a span in a word of 64
bits is added to an instant. Nothing when there is no word for a result on the way. Where the clock
comes to its end, the timeout is a day and the deadline is not rounded. -/
def computed? (s : Supervisor α) (last now timeout : Nat) : Option Nat := do
  let raw ← (instant? last (asked now timeout)).or (instant? last (now + Nanos.ofSeconds 86400))
  if s.granularity = 0 then return raw
  let tick ← word? 128 s.granularity
  let offset ← word? 128 (raw - s.origin)
  let ticks ← word? 128 (offset ⌈/⌉ tick)
  let span ← word? 128 (ticks * tick)
  return ((word? 64 span).bind fun nanos => instant? last (s.origin + nanos)).getD raw

/-- A later request, or a longer timeout, asks for no earlier deadline. -/
theorem asked_mono {now later timeout longer : Nat} (hnow : now ≤ later)
    (htimeout : timeout ≤ longer) : asked now timeout ≤ asked later longer :=
  Nat.add_le_add hnow (min_le_min_right maxTimeout htimeout)

/-- Without a granularity a deadline is the one that was asked for. -/
theorem deadlineAfter_of_zero {s : Supervisor α} (h : s.granularity = 0) (now timeout : Nat) :
    s.deadlineAfter now timeout = asked now timeout :=
  if_pos h

section Ticks

variable {s : Supervisor α} (hpos : 0 < s.granularity)

include hpos

private theorem deadlineAfter_of_pos (now timeout : Nat) : s.deadlineAfter now timeout =
    if s.rounded (asked now timeout) < UInt64.size then s.origin + s.rounded (asked now timeout)
    else asked now timeout := by
  have hceil : (asked now timeout - s.origin) ⌈/⌉ s.granularity =
      (asked now timeout - s.origin + (s.granularity - 1)) / s.granularity := by
    rw [Nat.ceilDiv_eq_add_pred_div, Nat.add_sub_assoc hpos]
  rw [rounded, hceil, deadlineAfter, if_neg hpos.ne']
  rfl

/-- The ticks cover the time since the making of the supervisor. -/
theorem le_rounded (raw : Nat) : raw - s.origin ≤ s.rounded raw := by
  rw [rounded, mul_comm]
  exact (ceilDiv_le_iff_le_mul hpos).1 le_rfl

/-- One tick less would not cover it. -/
theorem rounded_lt (raw : Nat) : s.rounded raw < raw - s.origin + s.granularity := by
  rw [rounded, Nat.ceilDiv_eq_add_pred_div]
  have hfloor := Nat.div_mul_le_self (raw - s.origin + s.granularity - 1) s.granularity
  omega

/-- Whole ticks that cover the time are not fewer. -/
theorem rounded_le {raw ticks : Nat} (h : raw - s.origin ≤ ticks * s.granularity) :
    s.rounded raw ≤ ticks * s.granularity := by
  refine Nat.mul_le_mul_right s.granularity ((ceilDiv_le_iff_le_mul hpos).2 ?_)
  rwa [mul_comm]

/-- A later time takes no fewer ticks. -/
theorem rounded_mono {raw later : Nat} (h : raw ≤ later) : s.rounded raw ≤ s.rounded later :=
  rounded_le hpos (le_trans (Nat.sub_le_sub_right h s.origin) (le_rounded hpos later))

/-- A deadline is less than a tick late. -/
theorem deadlineAfter_lt {now : Nat} (hnow : s.origin ≤ now) (timeout : Nat) :
    s.deadlineAfter now timeout < asked now timeout + s.granularity := by
  have hraw : s.origin ≤ asked now timeout := le_trans hnow (Nat.le_add_right _ _)
  have hlt := rounded_lt hpos (asked now timeout)
  rw [deadlineAfter_of_pos hpos]
  split <;> omega

end Ticks

/-- A deadline is never early. -/
theorem le_deadlineAfter (s : Supervisor α) (now timeout : Nat) :
    now + min timeout maxTimeout ≤ s.deadlineAfter now timeout := by
  rcases Nat.eq_zero_or_pos s.granularity with hzero | hpos
  · exact (deadlineAfter_of_zero hzero now timeout).ge
  · have hle := le_rounded hpos (asked now timeout)
    rw [deadlineAfter_of_pos hpos, ← asked]
    split <;> omega

/-- Whoever asks later or for longer does not get an earlier deadline. -/
theorem deadlineAfter_mono (s : Supervisor α) {now later timeout longer : Nat} (hnow : now ≤ later)
    (htimeout : timeout ≤ longer) :
    s.deadlineAfter now timeout ≤ s.deadlineAfter later longer := by
  have hasked := asked_mono hnow htimeout
  rcases Nat.eq_zero_or_pos s.granularity with hzero | hpos
  · rw [deadlineAfter_of_zero hzero, deadlineAfter_of_zero hzero]
    exact hasked
  · have hrounded := rounded_mono hpos hasked
    rw [deadlineAfter_of_pos hpos, deadlineAfter_of_pos hpos]
    split <;> split
    · omega
    · next hfits hlong =>
      -- had the later time not passed the earlier deadline, its ticks would be told as well
      have hpast : s.rounded (asked now timeout) < asked later longer - s.origin := by
        by_contra hle
        have := rounded_le hpos (not_lt.1 hle)
        exact hlong (lt_of_le_of_lt this hfits)
      omega
    · omega
    · exact hasked

/-- On a clock that does not come to its end meanwhile, with spans of time for the granularity and
since the making of the supervisor, every step has its word and the deadline is the one computed. -/
theorem computed?_eq (s : Supervisor α) {last now timeout : Nat}
    (hlast : asked now timeout ≤ last) (hwide : s.origin + UInt64.size ≤ last)
    (htick : s.granularity ≤ Nanos.longest) (hsince : now - s.origin ≤ Nanos.longest) :
    s.computed? last now timeout = some (s.deadlineAfter now timeout) := by
  have hword : 2 * Nanos.longest + maxTimeout < 2 ^ 128 := by decide
  have hraw : asked now timeout - s.origin ≤ Nanos.longest + maxTimeout := by
    have := min_le_right timeout maxTimeout
    unfold asked
    omega
  rw [computed?, instant?_of_le hlast, Option.some_or, Option.bind_eq_bind, Option.bind_some]
  rcases Nat.eq_zero_or_pos s.granularity with hzero | hpos
  · rw [if_pos hzero, deadlineAfter_of_zero hzero]
    rfl
  · have hspan := rounded_lt hpos (asked now timeout)
    have hticks :
        (asked now timeout - s.origin) ⌈/⌉ s.granularity ≤ s.rounded (asked now timeout) :=
      Nat.le_mul_of_pos_right _ hpos
    rw [if_neg hpos.ne', word?_of_lt (by omega), Option.bind_some, word?_of_lt (by omega),
      Option.bind_some, word?_of_lt (by omega), Option.bind_some]
    change (word? 128 (s.rounded _)).bind _ = _
    rw [word?_of_lt (by omega), Option.bind_some, deadlineAfter_of_pos hpos]
    by_cases hfits : s.rounded (asked now timeout) < UInt64.size
    · rw [word?_of_lt hfits, Option.bind_some, instant?_of_le (by omega), if_pos hfits]
      rfl
    · rw [word?_of_le (not_lt.1 hfits), if_neg hfits]
      rfl

/-- Without ticks a deadline is the time asked for. With them it is not before that and less than a
tick after it: it is the one whole number of ticks that lies there, counted from the making of the
supervisor, unless they are too many nanoseconds for a word of 64 bits, and then the time asked for.
Nothing overflows while it is computed, and it steps back neither when the timeout grows nor as time
goes by. -/
theorem deadlineAfter_onTick (s : Supervisor α) (now timeout : Nat) (hnow : s.origin ≤ now) :
    let raw := now + min timeout maxTimeout
    let deadline := s.deadlineAfter now timeout
    (s.granularity = 0 → deadline = raw) ∧
      (0 < s.granularity → raw ≤ deadline ∧ deadline < raw + s.granularity ∧
        ∃ ticks, raw ≤ s.origin + ticks * s.granularity ∧
          s.origin + ticks * s.granularity < raw + s.granularity ∧
          (ticks * s.granularity < UInt64.size → deadline = s.origin + ticks * s.granularity) ∧
          (UInt64.size ≤ ticks * s.granularity → deadline = raw)) ∧
      (∀ last, raw ≤ last → s.origin + UInt64.size ≤ last → s.granularity ≤ Nanos.longest →
        now - s.origin ≤ Nanos.longest → s.computed? last now timeout = some deadline) ∧
      ∀ later longer, now ≤ later → timeout ≤ longer →
        deadline ≤ s.deadlineAfter later longer := by
  intro raw deadline
  refine ⟨fun hzero => deadlineAfter_of_zero hzero now timeout, fun hpos => ?_,
    fun last hlast hwide htick hsince => s.computed?_eq hlast hwide htick hsince,
    fun later longer hlater hlonger => s.deadlineAfter_mono hlater hlonger⟩
  have hraw : s.origin ≤ raw := le_trans hnow (Nat.le_add_right _ _)
  have hle : raw - s.origin ≤ s.rounded raw := le_rounded hpos raw
  have hlt : s.rounded raw < raw - s.origin + s.granularity := rounded_lt hpos raw
  have hdeadline : deadline = if s.rounded raw < UInt64.size then s.origin + s.rounded raw
      else raw := deadlineAfter_of_pos hpos now timeout
  refine ⟨s.le_deadlineAfter now timeout, deadlineAfter_lt hpos hnow timeout,
    (raw - s.origin) ⌈/⌉ s.granularity, ?_, ?_, fun hfits => ?_, fun hlong => ?_⟩
  · change raw ≤ s.origin + s.rounded raw
    omega
  · change s.origin + s.rounded raw < raw + s.granularity
    omega
  · exact hdeadline.trans (if_pos hfits)
  · exact hdeadline.trans (if_neg (not_lt.2 hlong))

/-- A supervisor made at the time 7 whose ticks are so long that the second of them is too far away
to be told. -/
def slow : Supervisor Unit := .new (UInt64.size - 1) 7

/-- With the longest granularity there is, short timeouts fall on its first tick, and where a tick
cannot be told in a word the deadline is the exact one. -/
theorem deadlineAfter_onTick_slow :
    slow.deadlineAfter 8 0 = 7 + (UInt64.size - 1) ∧
      slow.deadlineAfter (UInt64.size + 9) Nanos.longest = UInt64.size + 9 + maxTimeout ∧
      slow.deadlineAfter 8 0 ≤ slow.deadlineAfter (UInt64.size + 9) Nanos.longest ∧
      slow.computed? (3 * UInt64.size) (UInt64.size + 9) Nanos.longest =
        some (UInt64.size + 9 + maxTimeout) := by
  obtain ⟨-, -, -, hmono⟩ := slow.deadlineAfter_onTick 8 0 (by decide)
  obtain ⟨-, -, hcomputed, -⟩ :=
    slow.deadlineAfter_onTick (UInt64.size + 9) Nanos.longest (by decide)
  have hnear : slow.deadlineAfter 8 0 = 7 + (UInt64.size - 1) := by decide
  have hfar :
      slow.deadlineAfter (UInt64.size + 9) Nanos.longest = UInt64.size + 9 + maxTimeout := by
    decide
  refine ⟨hnear, hfar, hmono _ _ (by decide) (by decide), ?_⟩
  rw [← hfar]
  exact hcomputed (3 * UInt64.size) (by decide) (by decide) (by decide) (by decide)

end Supervisor

end Flotilla
