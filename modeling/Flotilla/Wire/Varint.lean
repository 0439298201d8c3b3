import Flotilla.Text.Utf8

/-!
# Numbers of variable length

A number below 2^64 is written in groups of seven bits, the lowest first; each byte but the last
has its high bit set. Reading takes at most ten bytes, and the tenth can only carry one bit. It
also accepts forms with needless zero groups, and leaves the bytes after the number alone.
-/

namespace Flotilla.Wire.Varint

/-- Write a number. -/
def encode (n : Nat) : Bytes :=
  if n < 128 then [UInt8.ofNat n] else UInt8.ofNat (n % 128 + 128) :: encode (n / 128)
termination_by n
decreasing_by omega

/-- The place of the last byte that a number may have. -/
def lastPlace : Nat := 9

/-- Read the bytes of a number from the `place`-th on; returns the number and the rest. -/
def readFrom (place : Nat) : Bytes → Option (Nat × Bytes)
  | [] => none
  | b :: rest =>
    if b < 128 then
      if place = lastPlace ∧ 1 < b then none else some (b.toNat, rest)
    else if place = lastPlace then none
    else (readFrom (place + 1) rest).map fun p => (b.toNat % 128 + 128 * p.1, p.2)

/-- Read a number; returns it and the bytes after it. -/
def read (b : Bytes) : Option (Nat × Bytes) := readFrom 0 b

/-- Reading a number takes bytes. -/
theorem length_lt_of_readFrom {place : Nat} {b : Bytes} {n : Nat} {rest : Bytes}
    (h : readFrom place b = some (n, rest)) : rest.length < b.length := by
  induction b generalizing place n with
  | nil => simp [readFrom] at h
  | cons c cs ih =>
    rw [readFrom] at h
    split at h
    · split at h
      · cases h
      · cases h; simp
    · split at h
      · cases h
      · obtain ⟨p, hp, he⟩ := Option.map_eq_some_iff.1 h
        cases he
        exact Nat.lt_succ_of_lt (ih hp)

/-- A number takes at least one byte. -/
theorem length_lt_of_read {b : Bytes} {n : Nat} {rest : Bytes} (h : read b = some (n, rest)) :
    rest.length < b.length :=
  length_lt_of_readFrom h

end Flotilla.Wire.Varint
