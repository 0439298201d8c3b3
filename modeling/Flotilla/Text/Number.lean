/-!
# Whole numbers in text

Reading of a decimal number below 2^64: an optional plus sign, then digits only. Digits are
looked at from left to right, so of two faults the one met first is reported, and a character
that is no digit wins over the overflow it would cause.
-/

namespace Flotilla.Text

/-- Why a text is no whole number. -/
inductive NumberFault where
  /-- There is no character. -/
  | empty
  /-- A character is no digit, or there is only a sign. -/
  | invalidDigit
  /-- The number does not fit in 64 bits. -/
  | tooLarge
  deriving DecidableEq, Repr

/-- The fault in words. -/
def NumberFault.message : NumberFault → String
  | .empty => "cannot parse integer from empty string"
  | .invalidDigit => "invalid digit found in string"
  | .tooLarge => "number too large to fit in target type"

/-- Append digits to a number that fits in 64 bits. -/
def readDigits : List Char → Nat → Except NumberFault Nat
  | [], n => .ok n
  | c :: cs, n =>
    if '0' ≤ c ∧ c ≤ '9' then
      let next := n * 10 + (c.toNat - '0'.toNat)
      if next < UInt64.size then readDigits cs next else .error .tooLarge
    else .error .invalidDigit

/-- Read a whole number below 2^64. -/
def readWhole (s : List Char) : Except NumberFault Nat :=
  match s with
  | [] => .error .empty
  | ['+'] => .error .invalidDigit
  | '+' :: digits => readDigits digits 0
  | digits => readDigits digits 0

/-- A number as decimal digits. -/
def decimal (n : Nat) : String := String.ofList (Nat.toDigits 10 n)

/-- The last digits of a number, with zeros in front up to a width. -/
def padded (width n : Nat) : List Char :=
  let digits := Nat.toDigits 10 n
  List.replicate (width - digits.length) '0' ++ digits

end Flotilla.Text
