import Flotilla.Proofs.Wire.Messages
import Flotilla.Proofs.Wire.Room

/-!
# Messages sent on

There are many ways to write a message, and a reader accepts them all: numbers with needless bytes,
fields that come again, empty ones, and ones that nobody knows. The way that the writer takes is
never longer than the one that was read (`Message.length_toBytes_le`). So the limit of a frame,
which is the same in both directions, never stands in the way of a message that came in
(`Frame.sends_on`), and a stream that is sent on does not grow (`Frame.Decoder.sends_on_run`).
-/

namespace Flotilla

namespace Message

variable {m n : Message} {f : Wire.Field}

/-- A message grows by no more than the field that it takes over. -/
theorem length_absorb (h : m.absorb f = some n) :
    n.toBytes.length ≤ m.toBytes.length + f.room := by
  have hword (k : Nat) : (UInt64.ofNat k).toNat ≤ k := by
    rw [UInt64.toNat_ofNat']
    exact Nat.mod_le _ _
  unfold absorb at h
  split at h
  · next htopic =>
    obtain ⟨s, hs, rfl⟩ := Option.map_eq_some_iff.1 h
    have htext := Wire.Field.length_putText_le hs
    rw [htopic] at htext
    simp only [toBytes, List.length_append]
    omega
  split at h
  · next hkey =>
    obtain ⟨k, hk, rfl⟩ := Option.map_eq_some_iff.1 h
    have hnumber := Wire.Field.length_putNumber_le hk (hword k)
    rw [hkey] at hnumber
    simp only [toBytes, List.length_append]
    omega
  split at h
  · next hsentAt =>
    obtain ⟨k, hk, rfl⟩ := Option.map_eq_some_iff.1 h
    have hnumber := Wire.Field.length_putNumber_le hk (hword k)
    rw [hsentAt] at hnumber
    simp only [toBytes, List.length_append]
    omega
  split at h
  · next hpayload =>
    obtain ⟨b, hb, rfl⟩ := Option.map_eq_some_iff.1 h
    have hbytes := Wire.Field.length_putBytes_le hb
    rw [hpayload] at hbytes
    simp only [toBytes, List.length_append]
    omega
  split at h
  · next hsender =>
    obtain ⟨s, hs, rfl⟩ := Option.map_eq_some_iff.1 h
    have htext := Wire.Field.length_putText_le hs
    rw [hsender] at htext
    simp only [toBytes, List.length_append]
    omega
  · cases h
    exact Nat.le_add_right _ _

/-- A message is written in no more bytes than it was read from. -/
theorem length_toBytes_le {b : Bytes} (h : ofBytes? b = some m) : m.toBytes.length ≤ b.length :=
  Wire.size_le_of_readFields (fun m : Message => m.toBytes.length)
    (fun _ _ _ ha => length_absorb ha) (by decide) h

end Message

namespace Frame

/-- What was read from the body of a frame. -/
theorem eq_some_of_ofBody {body : Bytes} {m : Message} (h : ofBody body = .message m) :
    Message.ofBytes? body = some m := by
  unfold ofBody at h
  split at h
  · next hread =>
    cases h
    exact hread
  · cases h

/-- A message that was read from a frame has one itself, which is no longer. -/
theorem IsFrame.sent_on {frame body : Bytes} (h : IsFrame frame body) {m : Message}
    (hread : ofBody body = .message m) : ∃ again, encode m = .ok again ∧ IsFrame again m.toBytes ∧
      again.length ≤ frame.length := by
  have hshorter := Message.length_toBytes_le (eq_some_of_ofBody hread)
  obtain ⟨-, -, -, -, -, -, hfits⟩ := id h
  obtain ⟨again, hagain, hframe⟩ := isFrame_encode (Nat.le_trans hshorter hfits)
  refine ⟨again, hagain, hframe, ?_⟩
  rw [hframe.length, h.length]
  omega

/-- What is sent on when a decoder was asked for a frame: the frame of a message, and nothing
otherwise. -/
def SendsOn : Outcome → Bytes → Prop
  | .message m, again => encode m = .ok again
  | _, again => again = []

namespace Decoder

/-- What a decoder gives out can be sent on, and takes no more bytes than have left the buffer. -/
theorem sends_on_next (d : Decoder) :
    ∃ again, SendsOn d.next.1 again ∧ again.length + d.next.2.buffered ≤ d.buffered := by
  obtain ⟨frame, body, rest, hframe, hbuffer, hdecode⟩ | ⟨a, b, c, e, rest, hbuffer, -, hdecode⟩ |
    hdecode := decode_cases d.buffer
  · rw [next_eq hdecode, buffered, buffered, hbuffer, List.length_append]
    cases hbody : ofBody body with
    | message m =>
      obtain ⟨again, hagain, -, hshorter⟩ := hframe.sent_on hbody
      exact ⟨again, hagain, Nat.add_le_add_right hshorter _⟩
    | incomplete | refused => exact ⟨[], rfl, Nat.add_le_add_right (Nat.zero_le _) _⟩
  · rw [next_eq hdecode]
    exact ⟨[], rfl, Nat.le_of_eq (Nat.zero_add _)⟩
  · rw [next_eq hdecode]
    exact ⟨[], rfl, Nat.le_of_eq (Nat.zero_add _)⟩

/-- Whatever a decoder is fed and whenever it is asked, all that it gives out can be sent on, and
takes no more bytes than came in. -/
theorem sends_on_run (d : Decoder) (moves : List Move) :
    ∃ sent, List.Forall₂ SendsOn (d.run moves).1 sent ∧
      sent.flatten.length + (d.run moves).2.buffered ≤ d.buffered + (fed moves).length := by
  induction moves generalizing d with
  | nil => exact ⟨[], .nil, Nat.le_of_eq (Nat.zero_add _)⟩
  | cons move moves ih =>
    cases move with
    | extend data =>
      obtain ⟨sent, hsent, hlength⟩ := ih (d.extend data)
      refine ⟨sent, hsent, Nat.le_trans hlength (Nat.le_of_eq ?_)⟩
      simp only [extend, buffered, fed, List.length_append, Nat.add_assoc]
    | next =>
      obtain ⟨again, hagain, hfirst⟩ := d.sends_on_next
      obtain ⟨sent, hsent, hlength⟩ := ih d.next.2
      refine ⟨again :: sent, .cons hagain hsent, ?_⟩
      simp only [run, fed, List.flatten_cons, List.length_append]
      omega

end Decoder

/-- However the body of a frame was written, if a message was read from it, that message has a
frame again, with a body that is no longer, and the same message is read from it whatever comes
after. So all the messages of a stream can be sent on, and the stream does not grow. -/
theorem sends_on {body : Bytes} {m : Message} (hfits : body.length ≤ maxFrameBody)
    (hread : decode (lengthBytes body.length ++ body) = (.message m, []))
    (moves : List Decoder.Move) :
    encode m = .ok (lengthBytes m.toBytes.length ++ m.toBytes) ∧
      m.toBytes.length ≤ body.length ∧
      (∀ rest, decode (lengthBytes m.toBytes.length ++ m.toBytes ++ rest) = (.message m, rest)) ∧
      ∃ sent, List.Forall₂ SendsOn (Decoder.new.run moves).1 sent ∧
        sent.flatten.length ≤ (Decoder.fed moves).length := by
  have hbody : ofBody body = .message m := by
    have hwhole := (isFrame_lengthBytes hfits).decode_append []
    rw [List.append_nil, hread] at hwhole
    exact (congrArg Prod.fst hwhole).symm
  have hshorter := Message.length_toBytes_le (eq_some_of_ofBody hbody)
  have hagain := Nat.le_trans hshorter hfits
  have hlimit : maxFrameBody < 2 ^ 64 := by decide
  refine ⟨if_neg (Nat.not_lt.2 hagain), hshorter, fun rest => ?_, ?_⟩
  · rw [(isFrame_lengthBytes hagain).decode_append, ofBody,
      Message.ofBytes?_toBytes (Nat.lt_of_le_of_lt hagain hlimit)]
  · obtain ⟨sent, hsent, hlength⟩ := Decoder.new.sends_on_run moves
    refine ⟨sent, hsent, Nat.le_trans (Nat.le_add_right _ _) (Nat.le_trans hlength ?_)⟩
    exact Nat.le_of_eq (Nat.zero_add _)

/-- A body with a topic that comes twice, a key with two needless bytes, a time of 0 that is written
out, and a group and a text that nobody knows. -/
def wastefulBody : Bytes :=
  [0x0A, 1, 0x61, 0x0A, 1, 0x62, 0x10, 0x87, 0x80, 0, 0x18, 0, 0x4B, 0x08, 5, 0x4C, 0xA2, 1, 1,
    0x7A]

/-- The message in it is written in five bytes instead of twenty. -/
theorem sends_on_wastefulBody :
    wastefulBody.length ≤ maxFrameBody ∧
      decode (lengthBytes wastefulBody.length ++ wastefulBody) =
        (.message ⟨"b", 7, 0, [], ""⟩, []) ∧
      encode ⟨"b", 7, 0, [], ""⟩ = .ok [0, 0, 0, 5, 0x0A, 1, 0x62, 0x10, 7] ∧
      decode [0, 0, 0, 5, 0x0A, 1, 0x62, 0x10, 7] = (.message ⟨"b", 7, 0, [], ""⟩, []) := by
  have hfits : wastefulBody.length ≤ maxFrameBody := by decide
  have hread : decode (lengthBytes wastefulBody.length ++ wastefulBody) =
      (.message ⟨"b", 7, 0, [], ""⟩, []) := by decide +kernel
  obtain ⟨hencode, -, hdecode, -⟩ := sends_on hfits hread []
  have hframe : lengthBytes (Message.toBytes ⟨"b", 7, 0, [], ""⟩).length ++
      Message.toBytes ⟨"b", 7, 0, [], ""⟩ = [0, 0, 0, 5, 0x0A, 1, 0x62, 0x10, 7] := by
    decide +kernel
  have hagain := hdecode []
  rw [List.append_nil, hframe] at hagain
  exact ⟨hfits, hread, hencode.trans (congrArg Except.ok hframe), hagain⟩

end Frame

end Flotilla
