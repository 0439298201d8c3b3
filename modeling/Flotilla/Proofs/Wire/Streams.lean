import Flotilla.Frame
import Mathlib.Data.List.Forall2

/-!
# Streams of frames

Bytes come in in pieces that have nothing to do with the frames they are cut from. A decoder gives
out the same frames wherever the cuts are and whenever it is asked for the next frame, up to the
first length beyond the limit (`Decoder.decodes_stream`). What has been found at the front of a
buffer is found there as well when more bytes follow (`decode_append`); everything else is read off
that. The bytes that have come in are the frames given out and the buffer, one after the other.
-/

namespace Flotilla.Frame

/-- A whole frame with its body: four bytes with the length of the body, and the body, which is not
too long. -/
def IsFrame (frame body : Bytes) : Prop :=
  ∃ a b c d, frame = a :: b :: c :: d :: body ∧ lengthOf a b c d = body.length ∧
    body.length ≤ maxFrameBody

/-- A frame with what its body reads as. -/
def Holds (frame : Bytes) (o : Outcome) : Prop := ∃ body, IsFrame frame body ∧ o = ofBody body

private theorem isLast_ofBody (body : Bytes) : (ofBody body).isLast = false := by
  unfold ofBody
  split <;> rfl

/-- A frame is its body and four bytes. -/
theorem IsFrame.length {frame body : Bytes} (h : IsFrame frame body) :
    frame.length = 4 + body.length := by
  obtain ⟨a, b, c, d, rfl, -, -⟩ := h
  simp only [List.length_cons]
  omega

/-- What four bytes and those after them hold at their front. -/
theorem decode_cons (a b c d : UInt8) (rest : Bytes) :
    decode (a :: b :: c :: d :: rest) =
      if maxFrameBody < lengthOf a b c d then
        (.refused (.invalidLength (UInt32.ofNat (lengthOf a b c d))), a :: b :: c :: d :: rest)
      else if rest.length < lengthOf a b c d then (.incomplete, a :: b :: c :: d :: rest)
      else (ofBody (rest.take (lengthOf a b c d)), rest.drop (lengthOf a b c d)) := by
  rw [decode]
  dsimp only
  generalize lengthOf a b c d = length
  have hshort : (rest.take length).length < length ↔ rest.length < length := by
    rw [List.length_take]
    omega
  simp only [hshort]

/-- A length over the limit is refused, and no byte is taken. -/
theorem decode_of_limit {a b c d : UInt8} (h : maxFrameBody < lengthOf a b c d) (rest : Bytes) :
    decode (a :: b :: c :: d :: rest) =
      (.refused (.invalidLength (UInt32.ofNat (lengthOf a b c d))), a :: b :: c :: d :: rest) := by
  rw [decode_cons, if_pos h]

/-- A frame in front of other bytes is taken, and the other bytes stay. -/
theorem IsFrame.decode_append {frame body : Bytes} (h : IsFrame frame body) (rest : Bytes) :
    decode (frame ++ rest) = (ofBody body, rest) := by
  obtain ⟨a, b, c, d, rfl, hlength, hfits⟩ := h
  have hlong : ¬(body ++ rest).length < body.length := by
    rw [List.length_append]
    omega
  simp only [List.cons_append, decode_cons, hlength]
  rw [if_neg (Nat.not_lt.2 hfits), if_neg hlong, List.take_left, List.drop_left]

/-- All that can be found at the front of a buffer: a frame, which is taken, or a length beyond the
limit or no complete frame, both of which take nothing. -/
theorem decode_cases (buffer : Bytes) :
    (∃ frame body rest, IsFrame frame body ∧ buffer = frame ++ rest ∧
      decode buffer = (ofBody body, rest)) ∨
    (∃ a b c d rest, buffer = a :: b :: c :: d :: rest ∧ maxFrameBody < lengthOf a b c d ∧
      decode buffer = (.refused (.invalidLength (UInt32.ofNat (lengthOf a b c d))), buffer)) ∨
    decode buffer = (.incomplete, buffer) := by
  match buffer with
  | a :: b :: c :: d :: rest =>
    obtain ⟨length, hlength⟩ : ∃ length, lengthOf a b c d = length := ⟨_, rfl⟩
    have hdecode := decode_cons a b c d rest
    rw [hlength] at hdecode
    by_cases hlimit : maxFrameBody < length
    · have hbeyond : maxFrameBody < lengthOf a b c d := hlength ▸ hlimit
      exact Or.inr (Or.inl ⟨a, b, c, d, rest, rfl, hbeyond, decode_of_limit hbeyond rest⟩)
    by_cases hshort : rest.length < length
    · rw [if_neg hlimit, if_pos hshort] at hdecode
      exact Or.inr (Or.inr hdecode)
    · rw [if_neg hlimit, if_neg hshort] at hdecode
      have htaken : (rest.take length).length = length :=
        List.length_take_of_le (Nat.not_lt.1 hshort)
      have hbuffer : a :: b :: c :: d :: rest =
          (a :: b :: c :: d :: rest.take length) ++ rest.drop length := by
        simp only [List.cons_append, List.take_append_drop]
      exact Or.inl ⟨_, _, _, ⟨a, b, c, d, rfl, hlength.trans htaken.symm,
        htaken.symm ▸ Nat.not_lt.1 hlimit⟩, hbuffer, hdecode⟩
  | [] => exact Or.inr (Or.inr rfl)
  | [_] => exact Or.inr (Or.inr rfl)
  | [_, _] => exact Or.inr (Or.inr rfl)
  | [_, _, _] => exact Or.inr (Or.inr rfl)

/-- What has been found at the front of a buffer is found there as well when more bytes follow. -/
theorem decode_append {buffer : Bytes} (h : (decode buffer).1 ≠ .incomplete) (more : Bytes) :
    decode (buffer ++ more) = ((decode buffer).1, (decode buffer).2 ++ more) := by
  obtain ⟨frame, body, rest, hframe, rfl, hdecode⟩ | ⟨a, b, c, d, rest, rfl, hlimit, hdecode⟩ |
    hdecode := decode_cases buffer
  · rw [hdecode, List.append_assoc]
    exact hframe.decode_append _
  · rw [hdecode]
    exact decode_of_limit hlimit _
  · rw [hdecode] at h
    exact absurd rfl h

/-- An outcome after which nothing more can be taken has taken nothing itself. -/
theorem decode_of_isLast {buffer : Bytes} (h : (decode buffer).1.isLast = true) :
    (decode buffer).2 = buffer := by
  obtain ⟨frame, body, rest, hframe, rfl, hdecode⟩ | ⟨a, b, c, d, rest, rfl, hlimit, hdecode⟩ |
    hdecode := decode_cases buffer
  · rw [hdecode, isLast_ofBody] at h
    cases h
  · rw [hdecode]
  · rw [hdecode]

/-- What outcomes tell about a stream: all but those that say no more than that no complete frame
has come in, up to the first length beyond the limit. -/
def told : List Outcome → List Outcome
  | [] => []
  | .incomplete :: rest => told rest
  | .refused (.invalidLength n) :: _ => [.refused (.invalidLength n)]
  | o :: rest => o :: told rest

private theorem told_cons_ofBody (body : Bytes) (rest : List Outcome) :
    told (ofBody body :: rest) = ofBody body :: told rest := by
  unfold ofBody
  split <;> rfl

namespace Decoder

/-- What is done with a decoder. -/
inductive Move where
  /-- Bytes come in. -/
  | extend (data : Bytes)
  /-- The next frame is asked for. -/
  | next
  deriving DecidableEq, Repr

/-- Do one thing after the other: what was heard each time a frame was asked for, and the decoder
at the end. -/
def run (d : Decoder) : List Move → List Outcome × Decoder
  | [] => ([], d)
  | .extend data :: moves => (d.extend data).run moves
  | .next :: moves =>
    let more := d.next.2.run moves
    (d.next.1 :: more.1, more.2)

/-- The bytes that come in. -/
def fed : List Move → Bytes
  | [] => []
  | .extend data :: moves => data ++ fed moves
  | .next :: moves => fed moves

/-- What a decoder gives out next is what its buffer begins with. -/
theorem next_eq {d : Decoder} {o : Outcome} {rest : Bytes} (h : decode d.buffer = (o, rest)) :
    d.next = (o, ⟨rest⟩) := by
  rw [next, h]

/-- Draining stops at the first outcome that waits for more bytes or refuses those that are
there. -/
theorem drain_of_isLast {d : Decoder} (h : d.next.1.isLast = true) :
    d.drain = ([d.next.1], d.next.2) := by
  rw [drain]
  exact dif_pos h

/-- Any other outcome is given out before the rest is drained. -/
theorem drain_of_not_isLast {d : Decoder} (h : d.next.1.isLast = false) :
    d.drain = (d.next.1 :: d.next.2.drain.1, d.next.2.drain.2) := by
  rw [drain]
  exact dif_neg (Bool.eq_false_iff.1 h)

/-- A frame in front of other bytes is given out first, and then what the others hold. -/
theorem drain_frame {frame body : Bytes} (h : IsFrame frame body) (rest : Bytes) :
    drain ⟨frame ++ rest⟩ = (ofBody body :: (drain ⟨rest⟩).1, (drain ⟨rest⟩).2) := by
  have hnext : next ⟨frame ++ rest⟩ = (ofBody body, ⟨rest⟩) := next_eq (h.decode_append rest)
  rw [drain_of_not_isLast, hnext]
  rw [hnext]
  exact isLast_ofBody body

/-- Wherever the stream is cut and whenever frames are asked for in between, what is told by the
time everything is taken is what the whole stream tells at once. -/
theorem told_run_drain (d : Decoder) (moves : List Move) :
    told ((d.run moves).1 ++ (d.run moves).2.drain.1) = told (d.extend (fed moves)).drain.1 := by
  induction moves generalizing d with
  | nil =>
    have hself : d.extend (fed []) = d := by rw [extend, fed, List.append_nil]
    rw [hself]
    rfl
  | cons move moves ih =>
    cases move with
    | extend data =>
      have hfed : (d.extend data).extend (fed moves) = d.extend (fed (.extend data :: moves)) := by
        rw [extend, extend, extend, fed, List.append_assoc]
      rw [← hfed]
      exact ih (d.extend data)
    | next =>
      rw [run, List.cons_append]
      obtain ⟨frame, body, rest, hframe, hbuffer, hdecode⟩ |
        ⟨a, b, c, e, rest, hbuffer, hlimit, hdecode⟩ | hdecode := decode_cases d.buffer
      · have hwhole : d.extend (fed (.next :: moves)) = ⟨frame ++ (rest ++ fed moves)⟩ := by
          rw [extend, fed, hbuffer, List.append_assoc]
        rw [next_eq hdecode, told_cons_ofBody, ih, hwhole, drain_frame hframe, told_cons_ofBody]
        rfl
      · -- the length stays in front of all that comes in later
        have hkept : (decode (d.buffer ++ fed moves)).1 = (decode d.buffer).1 := by
          rw [decode_append (by rw [hdecode]; nofun)]
        rw [hdecode] at hkept
        have hlast : (d.extend (fed (.next :: moves))).next.1.isLast = true :=
          (congrArg Outcome.isLast hkept).trans rfl
        rw [drain_of_isLast hlast, next_eq hdecode]
        exact congrArg (fun o => told [o]) hkept.symm
      · have hself : d.next.2 = d := by rw [next_eq hdecode]
        rw [hself, next_eq hdecode]
        exact ih d

/-- The frames that were given out, and what is left, are what has come in. -/
theorem frames_run (d : Decoder) (moves : List Move) :
    ∃ frames, List.Forall₂ Holds frames ((d.run moves).1.filter fun o => !o.isLast) ∧
      d.buffer ++ fed moves = frames.flatten ++ (d.run moves).2.buffer := by
  induction moves generalizing d with
  | nil => exact ⟨[], .nil, List.append_nil _⟩
  | cons move moves ih =>
    cases move with
    | extend data =>
      obtain ⟨frames, hframes, hbytes⟩ := ih (d.extend data)
      refine ⟨frames, hframes, ?_⟩
      rw [fed, ← List.append_assoc]
      exact hbytes
    | next =>
      obtain ⟨frames, hframes, hbytes⟩ := ih d.next.2
      by_cases hlast : d.next.1.isLast = true
      · have hself : d.next.2.buffer = d.buffer := decode_of_isLast hlast
        rw [hself] at hbytes
        refine ⟨frames, ?_, hbytes⟩
        rw [run, List.filter_cons_of_neg (by rw [hlast]; decide)]
        exact hframes
      · obtain ⟨frame, body, rest, hframe, hbuffer, hdecode⟩ |
          ⟨a, b, c, e, rest, hbuffer, hlimit, hdecode⟩ | hdecode := decode_cases d.buffer
        · rw [next_eq hdecode] at hbytes
          refine ⟨frame :: frames, ?_, ?_⟩
          · rw [run, List.filter_cons_of_pos (by rw [Bool.eq_false_iff.2 hlast]; rfl)]
            refine .cons ⟨body, hframe, ?_⟩ hframes
            rw [next_eq hdecode]
          · rw [run, next_eq hdecode, hbuffer, fed, List.append_assoc, hbytes, List.flatten_cons,
              List.append_assoc]
        · rw [next_eq hdecode] at hlast
          exact absurd rfl hlast
        · rw [next_eq hdecode] at hlast
          exact absurd rfl hlast

/-- A stream is decoded in the same way however it is cut into pieces and whenever frames are asked
for, as long as everything is taken in the end. At every point what has come in is the frames given
out, in order, and the buffer. No complete frame and a length beyond the limit take nothing; a frame
whose body cannot be read takes itself and nothing else. -/
theorem decodes_stream (moves : List Move) :
    told ((new.run moves).1 ++ (new.run moves).2.drain.1) = told (new.extend (fed moves)).drain.1 ∧
    (∃ frames, List.Forall₂ Holds frames ((new.run moves).1.filter fun o => !o.isLast) ∧
      fed moves = frames.flatten ++ (new.run moves).2.buffer ∧
      (fed moves).length = frames.flatten.length + (new.run moves).2.buffered) ∧
    (∀ d : Decoder, d.next.1.isLast = true → d.next.2 = d) ∧
    ∀ frame body rest, IsFrame frame body → Message.ofBytes? body = none →
      frame.length = 4 + body.length ∧
      next ⟨frame ++ rest⟩ = (.refused .malformed, ⟨rest⟩) ∧
      drain ⟨frame ++ rest⟩ = (.refused .malformed :: (drain ⟨rest⟩).1, (drain ⟨rest⟩).2) := by
  obtain ⟨frames, hframes, hbytes⟩ := new.frames_run moves
  rw [show new.buffer ++ fed moves = fed moves from rfl] at hbytes
  refine ⟨new.told_run_drain moves, ⟨frames, hframes, hbytes, ?_⟩, fun d hlast => ?_,
    fun frame body rest hframe hbody => ?_⟩
  · have hlength := congrArg List.length hbytes
    rw [List.length_append] at hlength
    exact hlength
  · exact congrArg Decoder.mk (decode_of_isLast hlast)
  · have houtcome : ofBody body = .refused .malformed := by
      rw [ofBody, hbody]
    have hnext := next_eq (d := ⟨frame ++ rest⟩) (hframe.decode_append rest)
    have hdrain := drain_frame hframe rest
    rw [houtcome] at hnext hdrain
    exact ⟨hframe.length, hnext, hdrain⟩

end Decoder

end Flotilla.Frame
