import Flotilla.Proofs.Wire.Fields

/-!
# The room that fields take

Many forms of a number are accepted, and fields may come again or be empty, but a reader accepts no
shorter form of anything than the writer's: of numbers (`Varint.length_encode_le`), and of fields,
each of which takes at least its room (`Wire.room_of_readFields`). So whatever takes over one field
after the other, and grows by no more than the room of each, is never longer than the bytes that it
was read from (`Wire.size_le_of_readFields`).
-/

namespace Flotilla

namespace Wire

namespace Varint

/-- A number that is read fits into what is left of 64 bits. -/
theorem lt_of_readFrom {place n : Nat} {b rest : Bytes} (hplace : place ≤ lastPlace)
    (h : readFrom place b = some (n, rest)) : n < 2 ^ (64 - 7 * place) := by
  induction b generalizing place n with
  | nil => cases h
  | cons c cs ih =>
    rw [lastPlace] at hplace
    rw [readFrom] at h
    split at h
    · next hlow =>
      rw [UInt8.lt_iff_toNat_lt] at hlow
      split at h
      · cases h
      · next hlast =>
        cases h
        by_cases hnine : place = 9
        · have hbit : ¬1 < c := fun hc => hlast ⟨hnine, hc⟩
          rw [UInt8.lt_iff_toNat_lt] at hbit
          have hone : (1 : UInt8).toNat = 1 := rfl
          rw [hnine]
          omega
        · have hroom : 2 ^ 7 ≤ 2 ^ (64 - 7 * place) := Nat.pow_le_pow_right (by decide) (by omega)
          exact Nat.lt_of_lt_of_le hlow hroom
    · split at h
      · cases h
      · next hnine =>
        rw [lastPlace] at hnine
        obtain ⟨p, hp, he⟩ := Option.map_eq_some_iff.1 h
        cases he
        have hrest := ih (by rw [lastPlace]; omega) hp
        have hpow : 2 ^ (64 - 7 * (place + 1)) * 2 ^ 7 = 2 ^ (64 - 7 * place) := by
          rw [← Nat.pow_add]
          congr 1
          omega
        omega

/-- What is read has room in the 64 bits of a number. -/
theorem lt_of_read {n : Nat} {b rest : Bytes} (h : read b = some (n, rest)) : n < 2 ^ 64 :=
  lt_of_readFrom (Nat.zero_le _) h

private theorem length_encode_pos (n : Nat) : 0 < (encode n).length :=
  List.length_pos_iff.2 (encode_ne_nil n)

private theorem length_encode_of_lt {n : Nat} (h : n < 128) : (encode n).length = 1 := by
  rw [encode, if_pos h]
  rfl

private theorem length_encode_of_le {n : Nat} (h : 128 ≤ n) :
    (encode n).length = (encode (n / 128)).length + 1 := by
  rw [encode, if_neg (Nat.not_lt.2 h)]
  rfl

/-- A greater number takes no fewer bytes. -/
theorem length_encode_mono {m n : Nat} (h : m ≤ n) : (encode m).length ≤ (encode n).length := by
  induction n using Nat.strongRecOn generalizing m with
  | ind n ih =>
    by_cases hm : m < 128
    · rw [length_encode_of_lt hm]
      exact length_encode_pos n
    · rw [length_encode_of_le (n := m) (Nat.not_lt.1 hm), length_encode_of_le (n := n) (by omega)]
      exact Nat.succ_le_succ (ih (n / 128) (by omega) (Nat.div_le_div_right h))

/-- A number is written with no more bytes than it was read from. -/
theorem length_encode_le_of_readFrom {place n : Nat} {b rest : Bytes}
    (h : readFrom place b = some (n, rest)) : (encode n).length + rest.length ≤ b.length := by
  induction b generalizing place n with
  | nil => cases h
  | cons c cs ih =>
    rw [readFrom] at h
    split at h
    · next hlow =>
      rw [UInt8.lt_iff_toNat_lt] at hlow
      split at h
      · cases h
      · cases h
        refine Nat.le_of_eq ?_
        rw [length_encode_of_lt hlow, List.length_cons, Nat.add_comm]
    · split at h
      · cases h
      · obtain ⟨p, hp, he⟩ := Option.map_eq_some_iff.1 h
        cases he
        have hrest := ih hp
        rw [List.length_cons]
        by_cases hsmall : c.toNat % 128 + 128 * p.1 < 128
        · have hpos := length_encode_pos p.1
          rw [length_encode_of_lt hsmall]
          omega
        · have hhigh : (c.toNat % 128 + 128 * p.1) / 128 = p.1 := by omega
          rw [length_encode_of_le (by omega), hhigh]
          omega

/-- No form of a number is shorter than the one that is written. -/
theorem length_encode_le {n : Nat} {b rest : Bytes} (h : read b = some (n, rest)) :
    (encode n).length + rest.length ≤ b.length :=
  length_encode_le_of_readFrom h

end Varint

/-- The bytes that a field takes at the least. Only numbers and byte strings count: a reader takes
nothing from the others. -/
def Field.room (f : Field) : Nat :=
  match f.value with
  | .number n => (numberMark f.number).length + (Varint.encode n).length
  | .bytes b => (putBody f.number b).length
  | _ => 0

/-- The bytes that a row of fields takes at the least. -/
def rooms : List Field → Nat
  | [] => 0
  | f :: rest => f.room + rooms rest

/-- The number or byte string of a field has room in 64 bits, or has a length that has. -/
def Field.Sized (f : Field) : Prop :=
  match f.value with
  | .number n => n < 2 ^ 64
  | .bytes b => b.length < 2 ^ 64
  | _ => True

private theorem length_of_readMark {b : Bytes} {number form : Nat} {rest : Bytes}
    (h : readMark b = some (number, form, rest)) :
    (Varint.encode (number * 8 + form)).length + rest.length ≤ b.length := by
  unfold readMark at h
  split at h
  · cases h
  · next n tail hn =>
    split at h
    · cases h
      rw [show n / 8 * 8 + n % 8 = n by omega]
      exact Varint.length_encode_le hn
    · cases h

private theorem length_of_takeBytes {n : Nat} {b x rest : Bytes}
    (h : takeBytes n b = some (x, rest)) :
    x.length = n ∧ x.length + rest.length = b.length := by
  unfold takeBytes at h
  split at h
  · next hlength =>
    cases h
    refine ⟨hlength, ?_⟩
    rw [← List.length_append, List.take_append_drop]
  · cases h

private theorem room_of_readPlain (number : Nat) {form : Nat} {b : Bytes} {v : Value} {rest : Bytes}
    (h : readPlain form b = some (v, rest)) :
    (Field.mk number v).room + rest.length ≤
      (Varint.encode (number * 8 + form)).length + b.length ∧ (Field.mk number v).Sized := by
  unfold readPlain at h
  split at h
  · next hform =>
    obtain ⟨⟨n, tail⟩, hn, he⟩ := Option.map_eq_some_iff.1 h
    cases he
    have hlength := Varint.length_encode_le hn
    refine ⟨?_, Varint.lt_of_read hn⟩
    rw [hform]
    change (Varint.encode (number * 8)).length + (Varint.encode n).length + tail.length ≤
      (Varint.encode (number * 8)).length + b.length
    omega
  split at h
  · obtain ⟨⟨x, tail⟩, hx, he⟩ := Option.map_eq_some_iff.1 h
    cases he
    have hlength := length_of_takeBytes hx
    refine ⟨?_, trivial⟩
    change 0 + tail.length ≤ _
    omega
  split at h
  · next hform =>
    obtain ⟨⟨x, tail⟩, hx, he⟩ := Option.map_eq_some_iff.1 h
    cases he
    unfold readSized at hx
    split at hx
    · cases hx
    · next n more hn =>
      obtain ⟨hsame, hlength⟩ := length_of_takeBytes hx
      have hfront := Varint.length_encode_le hn
      have hroom : (Field.mk number (.bytes x)).room =
          (Varint.encode (number * 8 + 2)).length + (Varint.encode x.length).length + x.length := by
        rw [Field.room]
        dsimp only
        rw [putBody, bytesMark, List.length_append, List.length_append]
      refine ⟨?_, ?_⟩
      · rw [hroom, hform, hsame]
        dsimp only
        omega
      · change x.length < 2 ^ 64
        rw [hsame]
        exact Varint.lt_of_read hn
  split at h
  · obtain ⟨⟨x, tail⟩, hx, he⟩ := Option.map_eq_some_iff.1 h
    cases he
    have hlength := length_of_takeBytes hx
    refine ⟨?_, trivial⟩
    change 0 + tail.length ≤ _
    omega
  · cases h

/-- A field that is read takes no more room than the bytes that it was read from. -/
theorem room_of_readField {depth : Nat} {b : Bytes} {f : Field} {rest : Bytes}
    (h : readField depth b = some (f, rest)) : f.room + rest.length ≤ b.length ∧ f.Sized := by
  unfold readField at h
  split at h
  · cases h
  · next number form more hm =>
    have hmark := length_of_readMark hm
    split at h
    · obtain ⟨tail, htail, he⟩ := Option.map_eq_some_iff.1 h
      cases he
      have hskip := length_lt_of_skipGroup htail
      refine ⟨?_, trivial⟩
      change 0 + _ ≤ _
      omega
    · obtain ⟨⟨v, tail⟩, hv, he⟩ := Option.map_eq_some_iff.1 h
      cases he
      obtain ⟨hroom, hsized⟩ := room_of_readPlain number hv
      exact ⟨Nat.le_trans hroom hmark, hsized⟩

/-- The fields of a body take no more room than the body has. -/
theorem room_of_readFields {depth : Nat} {b : Bytes} {fields : List Field}
    (h : readFields depth b = some fields) :
    rooms fields ≤ b.length ∧ ∀ f ∈ fields, f.Sized := by
  fun_induction readFields depth b generalizing fields with
  | case1 b hb =>
    cases h
    exact ⟨Nat.zero_le _, nofun⟩
  | case2 => cases h
  | case3 b hb f rest hf ih =>
    obtain ⟨more, hmore, rfl⟩ := Option.map_eq_some_iff.1 h
    obtain ⟨hroom, hsized⟩ := room_of_readField hf
    obtain ⟨hrooms, hall⟩ := ih hmore
    refine ⟨?_, fun g hg => ?_⟩
    · rw [rooms]
      omega
    · rcases List.mem_cons.1 hg with rfl | hg
      · exact hsized
      · exact hall g hg

private theorem length_putBytes_le (number : Nat) (b : Bytes) :
    (putBytes number b).length ≤ (putBody number b).length := by
  rw [putBytes]
  split
  · exact Nat.zero_le _
  · exact Nat.le_refl _

/-- A field with fewer bytes in it is no longer. -/
theorem length_putBody_mono (number : Nat) {b c : Bytes} (h : b.length ≤ c.length) :
    (putBody number b).length ≤ (putBody number c).length := by
  have hlength := Varint.length_encode_mono h
  simp only [putBody, List.length_append]
  omega

/-- A number no greater than the one that a field holds takes no more than the field. -/
theorem Field.length_putNumber_le {f : Field} {m n : Nat} (h : f.value.number? = some n)
    (hm : m ≤ n) : (putNumber f.number m).length ≤ f.room := by
  obtain ⟨number, value⟩ := f
  cases value with
  | number k =>
    cases h
    have hlength := Varint.length_encode_mono hm
    rw [putNumber]
    split
    · exact Nat.zero_le _
    · rw [List.length_append]
      exact Nat.add_le_add_left hlength _
  | bytes | eight | group | four => cases h

/-- A number of one byte takes no more room than the number field that it stands for. -/
theorem Field.length_putNumber_of_lt {f : Field} {m n : Nat} (h : f.value.number? = some n)
    (hm : m < 128) : (putNumber f.number m).length ≤ f.room := by
  obtain ⟨number, value⟩ := f
  cases value with
  | number k =>
    have hpos := Varint.length_encode_pos k
    rw [putNumber]
    split
    · exact Nat.zero_le _
    · rw [List.length_append, Varint.length_encode_of_lt hm]
      exact Nat.add_le_add_left hpos _
  | bytes | eight | group | four => cases h

/-- A body no longer than the one that a field holds takes no more than the field. -/
theorem Field.length_putBody_le {f : Field} {b c : Bytes} (h : f.value.bytes? = some c)
    (hb : b.length ≤ c.length) : (putBody f.number b).length ≤ f.room := by
  obtain ⟨number, value⟩ := f
  cases value with
  | bytes d =>
    cases h
    exact length_putBody_mono number hb
  | number | eight | group | four => cases h

/-- The byte string that a field holds takes no more than the field. -/
theorem Field.length_putBytes_le {f : Field} {b : Bytes} (h : f.value.bytes? = some b) :
    (putBytes f.number b).length ≤ f.room :=
  Nat.le_trans (Wire.length_putBytes_le f.number b) (length_putBody_le h (Nat.le_refl _))

/-- The text that a field holds takes no more than the field. -/
theorem Field.length_putText_le {f : Field} {s : String} (h : f.value.text? = some s) :
    (putText f.number s).length ≤ f.room := by
  obtain ⟨b, hb, hs⟩ := Option.bind_eq_some_iff.1 h
  rw [putText, Text.utf8_of_ofUtf8? hs]
  exact length_putBytes_le hb

/-- The bytes of a field that was read have a length that can be written. -/
theorem Field.Sized.length_lt {f : Field} (hf : f.Sized) {c : Bytes}
    (h : f.value.bytes? = some c) : c.length < 2 ^ 64 := by
  obtain ⟨number, value⟩ := f
  cases value with
  | bytes d =>
    cases h
    exact hf
  | number | eight | group | four => cases h

section Folds

variable {ρ : Type} {absorb : ρ → Field → Option ρ} {fields : List Field} {r s : ρ}

/-- A law that every field keeps holds after all of them. -/
theorem foldlM_keeps {law : ρ → Prop}
    (hkeeps : ∀ f ∈ fields, ∀ r s, law r → absorb r f = some s → law s) (hr : law r)
    (h : fields.foldlM absorb r = some s) : law s := by
  induction fields generalizing r with
  | nil =>
    cases h
    exact hr
  | cons f rest ih =>
    obtain ⟨t, ht, hrest⟩ := Option.bind_eq_some_iff.1 h
    exact ih (fun g hg => hkeeps g (List.mem_cons_of_mem f hg))
      (hkeeps f List.mem_cons_self r t hr ht) hrest

/-- What takes no more than the room of each field takes no more than the room of all. -/
theorem foldlM_room (size : ρ → Nat)
    (hstep : ∀ f r s, absorb r f = some s → size s ≤ size r + f.room)
    (h : fields.foldlM absorb r = some s) : size s ≤ size r + rooms fields := by
  induction fields generalizing r with
  | nil =>
    cases h
    exact Nat.le_add_right _ _
  | cons f rest ih =>
    obtain ⟨t, ht, hrest⟩ := Option.bind_eq_some_iff.1 h
    have hfirst := hstep f r t ht
    have hothers := ih hrest
    rw [rooms]
    omega

/-- What takes nothing at first takes no more than the bytes that the fields were read from. -/
theorem size_le_of_readFields {depth : Nat} {b : Bytes} (size : ρ → Nat)
    (hstep : ∀ f r s, absorb r f = some s → size s ≤ size r + f.room) (hr : size r = 0)
    (h : ((readFields depth b).bind fun fields => fields.foldlM absorb r) = some s) :
    size s ≤ b.length := by
  obtain ⟨fields, hfields, hfold⟩ := Option.bind_eq_some_iff.1 h
  have hroom := (room_of_readFields hfields).1
  have hsize := foldlM_room size hstep hfold
  omega

end Folds

end Wire

end Flotilla
