import Flotilla.Proofs.Wire.Messages

/-!
# Messages on a stream

The messages that a stream brings are those of its frames, one after the other, up to the first
frame that is not complete or cannot be read (`Frame.messages`). More bytes can only add to them
(`Frame.messages_isPrefix_append`), and the frames of a row of messages bring that row
(`Frame.messages_frames`).
-/

namespace Flotilla.Frame

/-- Whether a message fits into a frame. -/
def fits (m : Message) : Bool := m.toBytes.length ≤ maxFrameBody

/-- The frame of a message; one that does not fit has none. -/
def frame (m : Message) : Bytes :=
  match encode m with
  | .ok frame => frame
  | .error _ => []

/-- The frames of messages, one behind the other. -/
def frames (ms : List Message) : Bytes := ms.flatMap frame

/-- The messages in front of the first outcome that is none. -/
def leading : List Outcome → List Message
  | .message m :: rest => m :: leading rest
  | _ => []

/-- The messages that a stream brings. -/
def messages (stream : Bytes) : List Message := leading (Decoder.drain ⟨stream⟩).1

section

variable {m : Message}

/-- A message that fits is written as its frame. -/
theorem encode_of_fits (h : fits m = true) : encode m = .ok (frame m) := by
  obtain ⟨bytes, hbytes, -⟩ := isFrame_encode (of_decide_eq_true h)
  rw [frame, hbytes]

/-- Only messages that fit are written, and they are written as their frames. -/
theorem fits_of_encode {bytes : Bytes} (h : encode m = .ok bytes) :
    fits m = true ∧ bytes = frame m := by
  have hfits : fits m = true := by
    unfold encode at h
    dsimp only at h
    split at h
    · cases h
    · next hfits => exact decide_eq_true (Nat.not_lt.1 hfits)
  exact ⟨hfits, Except.ok.inj (h.symm.trans (encode_of_fits hfits))⟩

/-- A message that is refused does not fit. -/
theorem not_fits_of_encode {fault : CodecFault} (h : encode m = .error fault) : fits m = false :=
  Bool.eq_false_iff.2 fun hfits => by cases (encode_of_fits hfits).symm.trans h

/-- The frame of a message holds its bytes. -/
theorem isFrame_frame (h : fits m = true) : IsFrame (frame m) m.toBytes := by
  obtain ⟨bytes, hbytes, hframe⟩ := isFrame_encode (of_decide_eq_true h)
  rwa [(fits_of_encode hbytes).2] at hframe

private theorem ofBody_toBytes (h : fits m = true) : ofBody m.toBytes = .message m := by
  have hlimit : maxFrameBody < 2 ^ 64 := by decide
  rw [ofBody, Message.ofBytes?_toBytes (Nat.lt_of_le_of_lt (of_decide_eq_true h) hlimit)]

/-- The frames of two rows are those of the one and those of the other. -/
theorem frames_append (ms rest : List Message) : frames (ms ++ rest) = frames ms ++ frames rest :=
  List.flatMap_append

/-- The frames of one message are its frame. -/
theorem frames_singleton (m : Message) : frames [m] = frame m := List.flatMap_singleton ..

/-- The frames of the front of a row are the front of the frames of the row. -/
theorem frames_isPrefix {ms rest : List Message} (h : ms <+: rest) : frames ms <+: frames rest := by
  obtain ⟨more, rfl⟩ := h
  exact ⟨frames more, (frames_append ms more).symm⟩

end

/-- Where no message is at the front, the stream brings none. -/
theorem messages_eq_nil {stream : Bytes} (h : ∀ m, (decode stream).1 ≠ .message m) :
    messages stream = [] := by
  have hleading (rest : List Outcome) : leading ((decode stream).1 :: rest) = [] := by
    cases hout : (decode stream).1 with
    | message m => exact absurd hout (h m)
    | incomplete => rfl
    | refused fault => rfl
  unfold messages
  by_cases hlast : (decode stream).1.isLast = true
  · rw [Decoder.drain_of_isLast (d := ⟨stream⟩) hlast]
    exact hleading []
  · rw [Decoder.drain_of_not_isLast (d := ⟨stream⟩) (Bool.eq_false_iff.2 hlast)]
    exact hleading _

/-- A frame that can be read brings its message and then what comes behind it. -/
theorem messages_of_holds {bytes : Bytes} {m : Message} (h : Holds bytes (.message m))
    (rest : Bytes) : messages (bytes ++ rest) = m :: messages rest := by
  obtain ⟨body, hframe, hbody⟩ := h
  rw [messages, Decoder.drain_frame hframe, ← hbody]
  rfl

/-- Frames that hold messages bring these messages, whatever comes after them. -/
theorem messages_flatten {parts : List Bytes} {ms : List Message}
    (h : List.Forall₂ (fun bytes m => Holds bytes (.message m)) parts ms) (rest : Bytes) :
    messages (parts.flatten ++ rest) = ms ++ messages rest := by
  induction h with
  | nil => rfl
  | cons hhead _ ih =>
    rw [List.flatten_cons, List.append_assoc, messages_of_holds hhead, ih, List.cons_append]

private theorem holds_frame {m : Message} (h : fits m = true) : Holds (frame m) (.message m) :=
  ⟨m.toBytes, isFrame_frame h, (ofBody_toBytes h).symm⟩

/-- The frames of messages bring these messages. -/
theorem messages_frames {ms : List Message} (h : ∀ m ∈ ms, fits m = true) :
    messages (frames ms) = ms := by
  induction ms with
  | nil => exact messages_eq_nil nofun
  | cons m ms ih =>
    have hhead := holds_frame (h m List.mem_cons_self)
    rw [frames, List.flatMap_cons, messages_of_holds hhead]
    exact congrArg (m :: ·) (ih fun n hn => h n (List.mem_cons_of_mem m hn))

/-- More bytes can only bring more messages. -/
theorem messages_isPrefix_append (stream more : Bytes) :
    messages stream <+: messages (stream ++ more) := by
  by_cases hnone : ∀ m, (decode stream).1 ≠ .message m
  · rw [messages_eq_nil hnone]
    exact List.nil_prefix
  · obtain ⟨m, hm⟩ := not_forall_not.1 hnone
    obtain ⟨bytes, body, rest, hframe, rfl, hdecode⟩ | ⟨a, b, c, d, rest, rfl, -, hdecode⟩ |
      hdecode := decode_cases stream
    · have hholds : Holds bytes (.message m) := ⟨body, hframe, by rw [← hm, hdecode]⟩
      have hshort : rest.length < (bytes ++ rest).length := by
        rw [List.length_append, hframe.length]
        omega
      rw [List.append_assoc, messages_of_holds hholds, messages_of_holds hholds]
      exact (List.prefix_cons_inj m).2 (messages_isPrefix_append rest more)
    · cases hm.symm.trans (congrArg Prod.fst hdecode)
    · cases hm.symm.trans (congrArg Prod.fst hdecode)
termination_by stream.length

/-- More bytes bring the same messages first. -/
theorem messages_isPrefix {stream longer : Bytes} (h : stream <+: longer) :
    messages stream <+: messages longer := by
  obtain ⟨more, rfl⟩ := h
  exact messages_isPrefix_append stream more

end Flotilla.Frame
