/-!
# Text as UTF-8 bytes

A byte string that is well formed reads as the text it encodes; in any other, each maximal
ill-formed piece reads as the replacement character U+FFFD. A piece that could have started a
character is taken as a whole, up to the first byte that cannot continue it.
-/

namespace Flotilla

/-- A byte string. -/
abbrev Bytes := List UInt8

namespace Text

/-- The UTF-8 form of a text. -/
def utf8 (s : String) : Bytes := s.toUTF8.data.toList

/-- The text that a well-formed byte string encodes. -/
def ofUtf8? (b : Bytes) : Option String := String.fromUTF8? b.toByteArray

/-- The character that stands for an ill-formed piece. -/
def replacement : Char := '\uFFFD'

/-- What may follow a lead byte: how many continuation bytes, and the range of the first. -/
def continuation (lead : UInt8) : Option (Nat × UInt8 × UInt8) :=
  if 0xC2 ≤ lead ∧ lead ≤ 0xDF then some (1, 0x80, 0xBF)
  else if lead = 0xE0 then some (2, 0xA0, 0xBF)
  else if lead = 0xED then some (2, 0x80, 0x9F)
  else if 0xE1 ≤ lead ∧ lead ≤ 0xEF then some (2, 0x80, 0xBF)
  else if lead = 0xF0 then some (3, 0x90, 0xBF)
  else if 0xF1 ≤ lead ∧ lead ≤ 0xF3 then some (3, 0x80, 0xBF)
  else if lead = 0xF4 then some (3, 0x80, 0x8F)
  else none

/-- The bits of the character that a lead byte carries, when `n` continuation bytes follow. -/
def leadBits (lead : UInt8) (n : Nat) : Nat := lead.toNat % Nat.pow 2 (6 - n)

/-- Take `n` more continuation bytes, the first of them from `lo` to `hi`. Returns the character
and how many bytes belong to it; when the bytes do not go on as they must, the replacement
character for what was read so far. -/
def takeContinuation : Nat → Nat → Nat → UInt8 → UInt8 → Bytes → Char × Nat
  | 0, bits, taken, _, _, _ => (Char.ofNat bits, taken)
  | _ + 1, _, taken, _, _, [] => (replacement, taken)
  | n + 1, bits, taken, lo, hi, b :: rest =>
    if lo ≤ b ∧ b ≤ hi then
      takeContinuation n (bits * 64 + b.toNat % 64) (taken + 1) 0x80 0xBF rest
    else (replacement, taken)

/-- The first character of a byte string, given its lead byte, and the number of bytes after the
lead byte that belong to it. -/
def firstChar (lead : UInt8) (rest : Bytes) : Char × Nat :=
  if lead < 0x80 then (Char.ofNat lead.toNat, 0)
  else match continuation lead with
    | none => (replacement, 0)
    | some (n, lo, hi) => takeContinuation n (leadBits lead n) 0 lo hi rest

/-- Read any byte string, ill-formed pieces as U+FFFD. -/
def repair : Bytes → List Char
  | [] => []
  | lead :: rest =>
    let first := firstChar lead rest
    first.1 :: repair (rest.drop first.2)
termination_by b => b.length
decreasing_by simp only [List.length_drop, List.length_cons]; omega

/-- The text of a byte string: the encoded text when it is well formed, and a repaired one
otherwise. -/
def lossy (b : Bytes) : String :=
  match ofUtf8? b with
  | some s => s
  | none => String.ofList (repair b)

/-- A text reads back from its UTF-8 form. -/
@[simp] theorem ofUtf8?_utf8 (s : String) : ofUtf8? (utf8 s) = some s := by
  have h : (utf8 s).toByteArray = s.toUTF8 := by
    unfold utf8
    apply ByteArray.ext
    apply Array.toList_inj.1
    rw [List.toList_data_toByteArray]
  rw [ofUtf8?, h, String.fromUTF8?, String.toUTF8_eq_toByteArray, dif_pos s.isValidUTF8]
  rfl

/-- Only the UTF-8 form of a text reads as that text. -/
theorem utf8_of_ofUtf8? {b : Bytes} {s : String} (h : ofUtf8? b = some s) : utf8 s = b := by
  unfold ofUtf8? String.fromUTF8? at h
  split at h
  · cases h
    simp [utf8, String.fromUTF8, String.toUTF8]
  · cases h

@[simp] theorem lossy_utf8 (s : String) : lossy (utf8 s) = s := by simp [lossy]

end Text

end Flotilla
