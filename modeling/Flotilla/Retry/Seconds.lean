import Flotilla.Time

/-!
# Spans as seconds in floating point

A span becomes a double as its whole seconds plus its nanoseconds over a thousand million. The
way back is exact: the double is read as the fraction that it is, and rounded to the nearest
nanosecond, a half going to the even neighbour.
-/

namespace Flotilla.Seconds

/-- A span in seconds. -/
def ofNanos (t : Nat) : Float :=
  (t / 1000000000).toUInt64.toFloat + (t % 1000000000).toUInt64.toFloat / 1000000000.0

/-- The quotient rounded to the nearest whole number, a half to the even neighbour. -/
def roundDiv (num den : Nat) : Nat :=
  let q := num / den
  let r := num % den
  if 2 * r < den then q
  else if den < 2 * r then q + 1
  else if q % 2 = 0 then q else q + 1

/-- The nanoseconds in `m * 2 ^ (e - 1075)` seconds, rounded to the nearest. -/
def scaled (m e : Nat) : Nat :=
  if 1075 ≤ e then m * 1000000000 * Nat.pow 2 (e - 1075)
  else roundDiv (m * 1000000000) (Nat.pow 2 (1075 - e))

/-- The nanoseconds in a positive finite number of seconds, rounded to the nearest. -/
def toNanos (seconds : Float) : Nat :=
  let bits := seconds.toBits.toNat
  let exponent := bits / 4503599627370496 % 2048
  let mantissa := bits % 4503599627370496
  if exponent = 0 then scaled mantissa 1 else scaled (mantissa + 4503599627370496) exponent

/-- `r` times the `e`-th power of `f`, by squaring from the lowest bit of the exponent up. -/
def timesPower (r f : Float) (e : Nat) : Float :=
  let r := if e % 2 = 1 then r * f else r
  if e / 2 = 0 then r else timesPower r (f * f) (e / 2)
termination_by e
decreasing_by omega

/-- The `e`-th power of `f`. -/
def power (f : Float) (e : Nat) : Float := timesPower 1.0 f e

end Flotilla.Seconds
