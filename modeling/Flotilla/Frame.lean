import Flotilla.Message

/-!
# Frames

On a stream each message is framed: four bytes with the length of its body, the highest byte
first, and the body. A body is at most `maxFrameBody` bytes long in both directions. A decoder
gathers what comes in and gives out whole frames; a frame that is not complete and a length
beyond the limit take nothing from it, while a body that cannot be read takes its frame.
-/

namespace Flotilla.Frame

/-- A length as four bytes, the highest first. -/
def lengthBytes (n : Nat) : Bytes :=
  [UInt8.ofNat (n / 16777216), UInt8.ofNat (n / 65536), UInt8.ofNat (n / 256), UInt8.ofNat n]

/-- The length that four bytes give. -/
def lengthOf (a b c d : UInt8) : Nat :=
  a.toNat * 16777216 + b.toNat * 65536 + c.toNat * 256 + d.toNat

/-- The frame of a message. -/
def encode (m : Message) : Except CodecFault Bytes :=
  let body := m.toBytes
  if maxFrameBody < body.length then .error (.frameTooLarge body.length)
  else .ok (lengthBytes body.length ++ body)

/-- What the front of a buffer holds. -/
inductive Outcome where
  /-- No complete frame yet. -/
  | incomplete
  /-- A frame with this message. -/
  | message (m : Message)
  /-- A length beyond the limit, or a frame whose body cannot be read. -/
  | refused (fault : CodecFault)
  deriving DecidableEq, Repr

/-- Read the body of a frame. -/
def ofBody (body : Bytes) : Outcome :=
  match Message.ofBytes? body with
  | some m => .message m
  | none => .refused .malformed

/-- Look for a frame at the front of a buffer; returns what is there and what the buffer holds
afterwards. -/
def decode (buffer : Bytes) : Outcome × Bytes :=
  match buffer with
  | a :: b :: c :: d :: rest =>
    let length := lengthOf a b c d
    if maxFrameBody < length then (.refused (.invalidLength (UInt32.ofNat length)), buffer)
    else
      let body := rest.take length
      if body.length < length then (.incomplete, buffer) else (ofBody body, rest.drop length)
  | _ => (.incomplete, buffer)

/-- Bytes of a stream that have not been given out as frames. -/
structure Decoder where
  /-- The bytes, oldest first. -/
  buffer : Bytes
  deriving DecidableEq, Repr

namespace Decoder

/-- A decoder that has been given nothing. -/
def new : Decoder := ⟨[]⟩

/-- Add bytes that came in. -/
def extend (d : Decoder) (data : Bytes) : Decoder := ⟨d.buffer ++ data⟩

/-- How many bytes wait. -/
def buffered (d : Decoder) : Nat := d.buffer.length

/-- Take the next frame. -/
def next (d : Decoder) : Outcome × Decoder :=
  let r := decode d.buffer
  (r.1, ⟨r.2⟩)

end Decoder

/-- Whether an outcome ends a row of frames: nothing more can be taken after it. -/
def Outcome.isLast : Outcome → Bool
  | .incomplete | .refused (.invalidLength _) => true
  | _ => false

/-- An outcome that is not the last one has taken its frame. -/
theorem length_lt_of_decode (buffer : Bytes) (h : (decode buffer).1.isLast = false) :
    (decode buffer).2.length < buffer.length := by
  match buffer with
  | a :: b :: c :: d :: rest =>
    unfold decode at h ⊢
    dsimp only at h ⊢
    generalize lengthOf a b c d = length at h ⊢
    by_cases h1 : maxFrameBody < length
    · rw [if_pos h1] at h; cases h
    · rw [if_neg h1] at h ⊢
      by_cases h2 : (rest.take length).length < length
      · rw [if_pos h2] at h; cases h
      · rw [if_neg h2]
        simp only [List.length_drop, List.length_cons]
        omega
  | [] => cases h
  | [_] => cases h
  | [_, _] => cases h
  | [_, _, _] => cases h

/-- Take frames until nothing more can be taken; the last outcome says why. -/
def Decoder.drain (d : Decoder) : List Outcome × Decoder :=
  let r := d.next
  if _h : r.1.isLast then ([r.1], r.2)
  else
    let more := r.2.drain
    (r.1 :: more.1, more.2)
termination_by d.buffer.length
decreasing_by exact length_lt_of_decode d.buffer (Bool.eq_false_iff.2 _h)

end Flotilla.Frame
