import Flotilla.Proofs.Wire.Fields
import Flotilla.Proofs.Wire.Streams

/-!
# Messages read back from their frames

What a message is written as reads back as the same message (`Message.ofBytes?_toBytes`), all five
fields of it, empty ones included. Writer and reader put the limit of a frame in the same place, so
a message either has a body beyond the limit and no frame, or it has a frame that is read back
whatever comes after it, and of which no part that is cut short is taken (`Frame.decode_encode`).
-/

namespace Flotilla

namespace Message

/-- A message reads back from what it is written as. -/
theorem ofBytes?_toBytes {m : Message} (h : m.toBytes.length < 2 ^ 64) :
    ofBytes? m.toBytes = some m := by
  have hlength := h
  simp only [toBytes, List.length_append] at hlength
  have hpayload : m.payload.length < 2 ^ 64 :=
    Nat.lt_of_le_of_lt (Wire.length_le_putBytes 4 m.payload) (by omega)
  have hwrites : Wire.Writes m.toBytes (Wire.textField 1 m.topic ++
      Wire.numberField 2 m.correlationId.toNat ++ Wire.numberField 3 m.sentAtMs.toNat ++
      Wire.bytesField 4 m.payload ++ Wire.textField 5 m.sender) :=
    ((((Wire.writes_putText (by decide) (by decide) (by omega)).append
      (Wire.writes_putNumber (by decide) (by decide) m.correlationId.toNat_lt)).append
      (Wire.writes_putNumber (by decide) (by decide) m.sentAtMs.toNat_lt)).append
      (Wire.writes_putBytes (by decide) (by decide) hpayload)).append
      (Wire.writes_putText (by decide) (by decide) (by omega))
  have htopic : (Wire.textField 1 m.topic).foldlM absorb blank = some ⟨m.topic, 0, 0, [], ""⟩ :=
    Wire.foldlM_textField (fun he => by rw [he]; rfl)
      (by simp [absorb, Wire.Value.text?, Wire.Value.bytes?, blank])
  have hkey : (Wire.numberField 2 m.correlationId.toNat).foldlM absorb ⟨m.topic, 0, 0, [], ""⟩ =
      some ⟨m.topic, m.correlationId, 0, [], ""⟩ :=
    Wire.foldlM_numberField (fun he => by rw [(UInt64.toNat_inj (b := 0)).1 he])
      (by simp [absorb, Wire.Value.number?])
  have hsentAt : (Wire.numberField 3 m.sentAtMs.toNat).foldlM absorb
      ⟨m.topic, m.correlationId, 0, [], ""⟩ =
        some ⟨m.topic, m.correlationId, m.sentAtMs, [], ""⟩ :=
    Wire.foldlM_numberField (fun he => by rw [(UInt64.toNat_inj (b := 0)).1 he])
      (by simp [absorb, Wire.Value.number?])
  have hpayload : (Wire.bytesField 4 m.payload).foldlM absorb
      ⟨m.topic, m.correlationId, m.sentAtMs, [], ""⟩ =
        some ⟨m.topic, m.correlationId, m.sentAtMs, m.payload, ""⟩ :=
    Wire.foldlM_bytesField (fun he => by rw [he])
      (by simp [absorb, Wire.Value.bytes?])
  have hsender : (Wire.textField 5 m.sender).foldlM absorb
      ⟨m.topic, m.correlationId, m.sentAtMs, m.payload, ""⟩ = some m :=
    Wire.foldlM_textField (fun he => by rw [← he])
      (by simp [absorb, Wire.Value.text?, Wire.Value.bytes?])
  rw [ofBytes?, hwrites.readFields_eq, Option.bind_some]
  simp only [List.foldlM_append, htopic, Option.bind_eq_bind, Option.bind_some, hkey, hsentAt,
    hpayload, hsender]

end Message

namespace Frame

/-- A length below `2 ^ 32` reads back from its four bytes. -/
theorem lengthOf_lengthBytes {n : Nat} (h : n < 2 ^ 32) {a b c d : UInt8}
    (hbytes : lengthBytes n = [a, b, c, d]) : lengthOf a b c d = n := by
  cases hbytes
  simp only [lengthOf, UInt8.toNat_ofNat']
  omega

/-- A body within the limit makes a frame. -/
theorem isFrame_lengthBytes {body : Bytes} (h : body.length ≤ maxFrameBody) :
    IsFrame (lengthBytes body.length ++ body) body := by
  have hlimit : maxFrameBody < 2 ^ 32 := by decide
  exact ⟨_, _, _, _, rfl, lengthOf_lengthBytes (Nat.lt_of_le_of_lt h hlimit) rfl, h⟩

/-- A message whose body is within the limit has a frame. -/
theorem isFrame_encode {m : Message} (h : m.toBytes.length ≤ maxFrameBody) :
    ∃ frame, encode m = .ok frame ∧ IsFrame frame m.toBytes :=
  ⟨_, if_neg (Nat.not_lt.2 h), isFrame_lengthBytes h⟩

/-- Of a frame that is cut short nothing is taken. -/
theorem IsFrame.decode_cut {frame body cut : Bytes} (h : IsFrame frame body) (hcut : cut <+: frame)
    (hshort : cut ≠ frame) : decode cut = (.incomplete, cut) := by
  by_cases hnone : (decode cut).1 = .incomplete
  · have hsame : (decode cut).2 = cut := decode_of_isLast (by rw [hnone]; rfl)
    exact Prod.ext hnone hsame
  · obtain ⟨missing, rfl⟩ := hcut
    have hwhole := h.decode_append []
    rw [List.append_nil, Frame.decode_append hnone] at hwhole
    have hmissing : missing = [] := (List.append_eq_nil_iff.1 (congrArg Prod.snd hwhole)).2
    rw [hmissing, List.append_nil] at hshort
    exact absurd rfl hshort

/-- A message has no frame exactly if its body is beyond the limit. Otherwise its frame reads back
as that very message, whatever comes after it, and leaves what comes after it; and of a part of the
frame that is cut short nothing is taken. -/
theorem decode_encode (m : Message) :
    (∀ fault, encode m = .error fault ↔
      maxFrameBody < m.toBytes.length ∧ fault = .frameTooLarge m.toBytes.length) ∧
    (m.toBytes.length ≤ maxFrameBody → ∃ frame, encode m = .ok frame ∧
      (∀ rest, decode (frame ++ rest) = (.message m, rest)) ∧
      ∀ cut, cut <+: frame → cut ≠ frame → decode cut = (.incomplete, cut)) := by
  refine ⟨fun fault => ?_, fun hfits => ?_⟩
  · unfold encode
    dsimp only
    split
    · next hlarge =>
      refine ⟨fun h => ⟨hlarge, (Except.error.inj h).symm⟩, fun h => ?_⟩
      rw [h.2]
    · next hfits => exact ⟨nofun, fun h => absurd h.1 hfits⟩
  · obtain ⟨frame, hframe, hwhole⟩ := isFrame_encode hfits
    refine ⟨frame, hframe, fun rest => ?_, fun cut hcut hshort => hwhole.decode_cut hcut hshort⟩
    have hlimit : maxFrameBody < 2 ^ 64 := by decide
    rw [hwhole.decode_append, ofBody, Message.ofBytes?_toBytes (Nat.lt_of_le_of_lt hfits hlimit)]

end Frame

end Flotilla
