import Flotilla.Wire.Field
import Mathlib.Algebra.Group.Nat.Defs
import Mathlib.Data.List.Basic

/-!
# Reading back what was written

A row of bytes writes a row of fields (`Wire.Writes`) when a reader finds these fields in front of
whatever comes after. Rows compose, so a body is read by reading its parts; numbers and byte
strings are read back as long as they are shorter than `2 ^ 64`.
-/

namespace Flotilla.Wire

namespace Varint

/-- A number is read back at any place at which there is room for its bits. -/
theorem readFrom_encode {n place : Nat} (hplace : place ≤ lastPlace)
    (hn : n < 2 ^ (64 - 7 * place)) (rest : Bytes) :
    readFrom place (encode n ++ rest) = some (n, rest) := by
  induction n using Nat.strongRecOn generalizing place with
  | ind n ih =>
    rw [lastPlace] at hplace
    rw [encode]
    split
    · next hsmall =>
      have hbyte : (UInt8.ofNat n).toNat = n :=
        UInt8.toNat_ofNat_of_lt' (show n < 256 by omega)
      have hlow : UInt8.ofNat n < 128 := by
        rw [UInt8.lt_iff_toNat_lt, hbyte]
        exact hsmall
      have hlast : ¬(place = lastPlace ∧ 1 < UInt8.ofNat n) := by
        rintro ⟨rfl, hbit⟩
        rw [UInt8.lt_iff_toNat_lt, hbyte] at hbit
        have htwo : n < 2 := hn
        have hone : (1 : UInt8).toNat = 1 := rfl
        omega
      rw [List.cons_append, readFrom, if_pos hlow, if_neg hlast, hbyte]
      rfl
    · next hbig =>
      have hroom : place ≠ 9 := by
        rintro rfl
        omega
      have hhigh : n / 128 < 2 ^ (64 - 7 * (place + 1)) := by
        rw [Nat.div_lt_iff_lt_mul (by decide)]
        have hpow : 2 ^ (64 - 7 * (place + 1)) * 128 = 2 ^ (64 - 7 * place) := by
          rw [show (128 : Nat) = 2 ^ 7 from rfl, ← Nat.pow_add]
          congr 1
          omega
        omega
      have hbyte : (UInt8.ofNat (n % 128 + 128)).toNat = n % 128 + 128 :=
        UInt8.toNat_ofNat_of_lt' (show n % 128 + 128 < 256 by omega)
      have hnlow : ¬UInt8.ofNat (n % 128 + 128) < 128 := by
        rw [UInt8.lt_iff_toNat_lt, hbyte]
        exact Nat.not_lt.2 (Nat.le_add_left _ _)
      have hrest : readFrom (place + 1) (encode (n / 128) ++ rest) = some (n / 128, rest) :=
        ih (n / 128) (by omega) (by rw [lastPlace]; omega) hhigh
      rw [List.cons_append, readFrom, if_neg hnlow, if_neg (by rw [lastPlace]; exact hroom), hrest,
        Option.map_some, hbyte]
      congr 2
      omega

/-- A number is read back, whatever comes after it. -/
theorem read_encode {n : Nat} (hn : n < 2 ^ 64) (rest : Bytes) :
    read (encode n ++ rest) = some (n, rest) :=
  readFrom_encode (Nat.zero_le _) hn rest

/-- Every number takes a byte. -/
theorem encode_ne_nil (n : Nat) : encode n ≠ [] := by
  rw [encode]
  split <;> exact List.cons_ne_nil _ _

end Varint

private theorem readMark_encode {number form : Nat} (hpos : 0 < number) (hfit : number < 2 ^ 28)
    (hform : form < 8) (rest : Bytes) :
    readMark (Varint.encode (number * 8 + form) ++ rest) = some (number, form, rest) := by
  have hmark : (number * 8 + form) / 8 = number := by omega
  have hrest : (number * 8 + form) % 8 = form := by omega
  have hsize : number * 8 + form < UInt32.size := by
    change number * 8 + form < 4294967296
    omega
  rw [readMark, Varint.read_encode (by omega)]
  dsimp only
  rw [hmark, hrest, if_pos ⟨hsize, by omega⟩]

private theorem takeBytes_append (b rest : Bytes) :
    takeBytes b.length (b ++ rest) = some (b, rest) := by
  rw [takeBytes, List.take_left, if_pos rfl, List.drop_left]

/-- A number field is read back. -/
theorem readField_number {number n : Nat} (hpos : 0 < number) (hfit : number < 2 ^ 28)
    (hn : n < 2 ^ 64) (depth : Nat) (rest : Bytes) :
    readField depth (numberMark number ++ Varint.encode n ++ rest) =
      some (⟨number, .number n⟩, rest) := by
  have hmark : readMark (Varint.encode (number * 8) ++ (Varint.encode n ++ rest)) =
      some (number, 0, Varint.encode n ++ rest) :=
    readMark_encode hpos hfit (Nat.zero_lt_succ 7) _
  rw [← List.append_assoc] at hmark
  rw [readField, numberMark, hmark]
  dsimp only
  rw [if_neg (by decide), readPlain, if_pos rfl, Varint.read_encode hn]
  rfl

/-- A field of bytes is read back. -/
theorem readField_body {number : Nat} (hpos : 0 < number) (hfit : number < 2 ^ 28) {b : Bytes}
    (hb : b.length < 2 ^ 64) (depth : Nat) (rest : Bytes) :
    readField depth (putBody number b ++ rest) = some (⟨number, .bytes b⟩, rest) := by
  have hmark := readMark_encode hpos hfit (by decide : 2 < 8)
    (Varint.encode b.length ++ (b ++ rest))
  have hassoc : putBody number b ++ rest = Varint.encode (number * 8 + 2) ++
      (Varint.encode b.length ++ (b ++ rest)) := by
    rw [putBody, bytesMark, List.append_assoc, List.append_assoc]
  rw [readField, hassoc, hmark]
  dsimp only
  rw [if_neg (by decide), readPlain, if_neg (by decide), if_neg (by decide), if_pos rfl, readSized,
    Varint.read_encode hb]
  dsimp only
  rw [takeBytes_append]
  rfl

/-- The bytes write these fields: a reader finds them in front of whatever comes after. -/
def Writes (b : Bytes) (fields : List Field) : Prop :=
  ∀ depth rest, readFields depth (b ++ rest) = (readFields depth rest).map (fields ++ ·)

private theorem writes_nil : Writes [] [] := by
  intro depth rest
  rw [List.nil_append]
  exact (Option.map_id_fun' ▸ rfl : readFields depth rest = (readFields depth rest).map id)

/-- Bytes that are read as fields one after the other are read as both rows. -/
theorem Writes.append {b c : Bytes} {fields more : List Field} (h : Writes b fields)
    (k : Writes c more) : Writes (b ++ c) (fields ++ more) := by
  intro depth rest
  rw [List.append_assoc, h, k, Option.map_map]
  congr 1
  funext tail
  exact (List.append_assoc _ _ _).symm

/-- A row that ends with its bytes. -/
theorem Writes.readFields_eq {b : Bytes} {fields : List Field} (h : Writes b fields) (depth : Nat) :
    readFields depth b = some fields := by
  have hend := h depth []
  have hnil : readFields depth [] = some [] := by
    rw [readFields]
    rfl
  rw [List.append_nil, hnil, Option.map_some, List.append_nil] at hend
  exact hend

private theorem writes_of_readField {b : Bytes} {f : Field} (hb : b ≠ [])
    (h : ∀ depth rest, readField depth (b ++ rest) = some (f, rest)) : Writes b [f] := by
  intro depth rest
  have hne : (b ++ rest).isEmpty = false := by
    cases b with
    | nil => exact absurd rfl hb
    | cons => rfl
  rw [readFields, if_neg (by rw [hne]; decide)]
  split
  · next hnone =>
    rw [h] at hnone
    cases hnone
  · next g tail hsome =>
    rw [h] at hsome
    cases hsome
    rfl

/-- The fields that a number is written as: none for the number 0. -/
def numberField (number n : Nat) : List Field :=
  if n = 0 then [] else [⟨number, .number n⟩]

/-- The fields that a byte string is written as: none for the empty one. -/
def bytesField (number : Nat) (b : Bytes) : List Field :=
  if b.isEmpty then [] else [⟨number, .bytes b⟩]

/-- The fields that a text is written as: none for the empty text. -/
def textField (number : Nat) (s : String) : List Field :=
  if (Text.utf8 s).isEmpty then [] else [⟨number, .bytes (Text.utf8 s)⟩]

/-- A number is read as its field, or as no field if it is zero. -/
theorem writes_putNumber {number n : Nat} (hpos : 0 < number) (hfit : number < 2 ^ 28)
    (hn : n < 2 ^ 64) : Writes (putNumber number n) (numberField number n) := by
  rw [putNumber, numberField]
  split
  · exact writes_nil
  · refine writes_of_readField ?_ fun depth rest => readField_number hpos hfit hn depth rest
    exact List.append_ne_nil_of_right_ne_nil _ (Varint.encode_ne_nil _)

private theorem writes_putBody {number : Nat} (hpos : 0 < number) (hfit : number < 2 ^ 28)
    {b : Bytes} (hb : b.length < 2 ^ 64) : Writes (putBody number b) [⟨number, .bytes b⟩] := by
  refine writes_of_readField ?_ fun depth rest => readField_body hpos hfit hb depth rest
  rw [putBody, List.append_assoc]
  exact List.append_ne_nil_of_left_ne_nil (Varint.encode_ne_nil _) _

private theorem length_le_putBody (number : Nat) (b : Bytes) :
    b.length ≤ (putBody number b).length := by
  rw [putBody, List.length_append]
  exact Nat.le_add_left _ _

/-- A field is no shorter than the bytes it holds. -/
theorem length_le_putBytes (number : Nat) (b : Bytes) : b.length ≤ (putBytes number b).length := by
  rw [putBytes]
  split
  · next hempty => exact Nat.le_of_eq (congrArg List.length (List.isEmpty_iff.1 hempty))
  · exact length_le_putBody number b

/-- Bytes are read as their field, or as no field if there are none. -/
theorem writes_putBytes {number : Nat} (hpos : 0 < number) (hfit : number < 2 ^ 28) {b : Bytes}
    (hb : b.length < 2 ^ 64) : Writes (putBytes number b) (bytesField number b) := by
  rw [putBytes, bytesField]
  split
  · exact writes_nil
  · exact writes_putBody hpos hfit hb

/-- A text is read as its field, or as no field if it is empty. -/
theorem writes_putText {number : Nat} (hpos : 0 < number) (hfit : number < 2 ^ 28) {s : String}
    (hs : (putText number s).length < 2 ^ 64) : Writes (putText number s) (textField number s) :=
  writes_putBytes hpos hfit (Nat.lt_of_le_of_lt (length_le_putBytes number _) hs)

/-- A row of bodies, all under one number. -/
theorem writes_bodies {α : Type} {number : Nat} (hpos : 0 < number) (hfit : number < 2 ^ 28)
    (body : α → Bytes) {l : List α} (hl : ∀ x ∈ l, (body x).length < 2 ^ 64) :
    Writes (l.flatMap fun x => putBody number (body x))
      (l.map fun x => ⟨number, .bytes (body x)⟩) := by
  induction l with
  | nil => exact writes_nil
  | cons x l ih =>
    exact (writes_putBody hpos hfit (hl x List.mem_cons_self)).append
      (ih fun y hy => hl y (List.mem_cons_of_mem x hy))

/-- Each of a row of fields is no longer than the row. -/
theorem length_body_le {α : Type} (number : Nat) (body : α → Bytes) {l : List α} {x : α}
    (hx : x ∈ l) : (body x).length ≤ (l.flatMap fun x => putBody number (body x)).length := by
  induction l with
  | nil => cases hx
  | cons y l ih =>
    rw [List.flatMap_cons, List.length_append]
    rcases List.mem_cons.1 hx with rfl | hx
    · exact Nat.le_trans (length_le_putBody number _) (Nat.le_add_right _ _)
    · exact Nat.le_trans (ih hx) (Nat.le_add_left _ _)

variable {ρ : Type} {absorb : ρ → Field → Option ρ} {r s : ρ}

/-- A number is taken in from its field, or is 0 anyway. -/
theorem foldlM_numberField {number n : Nat} (hzero : n = 0 → s = r)
    (h : absorb r ⟨number, .number n⟩ = some s) :
    (numberField number n).foldlM absorb r = some s := by
  rw [numberField]
  split
  · next hn => exact congrArg some (hzero hn).symm
  · rw [List.foldlM_cons, h]
    rfl

/-- A byte string is taken in from its field, or is empty anyway. -/
theorem foldlM_bytesField {number : Nat} {b : Bytes} (hempty : b = [] → s = r)
    (h : absorb r ⟨number, .bytes b⟩ = some s) :
    (bytesField number b).foldlM absorb r = some s := by
  rw [bytesField]
  split
  · next hb => exact congrArg some (hempty (List.isEmpty_iff.1 hb)).symm
  · rw [List.foldlM_cons, h]
    rfl

/-- A text is taken in from its field, or is empty anyway. -/
theorem foldlM_textField {number : Nat} {t : String} (hempty : t = "" → s = r)
    (h : absorb r ⟨number, .bytes (Text.utf8 t)⟩ = some s) :
    (textField number t).foldlM absorb r = some s := by
  refine foldlM_bytesField (fun ht => hempty ?_) h
  have hread := Text.ofUtf8?_utf8 t
  rw [ht, show ([] : Bytes) = Text.utf8 "" from by decide, Text.ofUtf8?_utf8] at hread
  exact (Option.some.inj hread).symm

/-- Bodies are taken in one after the other by what adds one of them. -/
theorem foldlM_bodies {α : Type} {number : Nat} {body : α → Bytes} (put : List α → ρ) {l : List α}
    (h : ∀ before, ∀ x ∈ l,
      absorb (put before) ⟨number, .bytes (body x)⟩ = some (put (before ++ [x])))
    (before : List α) :
    (l.map fun x => (⟨number, .bytes (body x)⟩ : Field)).foldlM absorb (put before) =
      some (put (before ++ l)) := by
  induction l generalizing before with
  | nil =>
    rw [List.append_nil]
    rfl
  | cons x rest ih =>
    rw [List.map_cons, List.foldlM_cons, h before x List.mem_cons_self]
    change (rest.map _).foldlM absorb (put (before ++ [x])) = _
    rw [ih fun before y hy => h before y (List.mem_cons_of_mem x hy), List.append_assoc]
    rfl

end Flotilla.Wire
