import Flotilla.Text.Number

/-!
# Time

Instants and spans of time are natural numbers of nanoseconds; an instant counts from the start
of the run. Sleepers wake on whole milliseconds, so what was due between two of them is due at
the later one (`Nanos.tick`).
-/

namespace Flotilla

namespace Nanos

/-- A whole number of milliseconds. -/
def ofMillis (n : Nat) : Nat := n * 1000000

/-- A whole number of seconds. -/
def ofSeconds (n : Nat) : Nat := n * 1000000000

/-- The milliseconds that have gone by in full. -/
def toMillis (t : Nat) : Nat := t / 1000000

/-- The first whole millisecond that is not before `t`. -/
def tick (t : Nat) : Nat := (t + 999999) / 1000000 * 1000000

/-- The longest span that can be asked for. -/
def longest : Nat := (UInt64.size - 1) * 1000000000 + 999999999

/-- The longest span that a sleeper sleeps: thirty years. -/
def longestSleep : Nat := ofSeconds (86400 * 365 * 30)

/-- When a sleeper wakes that goes to sleep at the time `now` for a span; whoever wants to sleep
for longer than the longest sleep wakes after that. -/
def wakeTime (now span : Nat) : Nat := now + min span longestSleep

/-- The digits after the point of `t` in units of `10 ^ places` nanoseconds, without zeros at
the end. -/
def fraction (places : Nat) (t : Nat) : List Char :=
  let digits := Text.padded places (t % Nat.pow 10 places)
  match (digits.reverse.dropWhile (· = '0')).reverse with
  | [] => []
  | shown => '.' :: shown

/-- A span in units of `10 ^ places` nanoseconds, exactly. -/
def inUnit (places : Nat) (unit : String) (t : Nat) : String :=
  Text.decimal (t / Nat.pow 10 places) ++ String.ofList (fraction places t) ++ unit

/-- A span in words: in the largest of the units s, ms, µs and ns that it reaches. -/
def text (t : Nat) : String :=
  if 1000000000 ≤ t then inUnit 9 "s" t
  else if 1000000 ≤ t then inUnit 6 "ms" t
  else if 1000 ≤ t then inUnit 3 "µs" t
  else inUnit 0 "ns" t

end Nanos

end Flotilla
