import Flotilla.Wire.Varint

/-!
# Fields of a binary message

A message body is a row of fields. Each has a number and a value of one of five forms: a number
of variable length, four or eight bytes, a byte string that carries its length, or a group of
further fields between a start and an end mark. Numbers, texts and nested bodies are all written
in two of these forms; the others occur only in fields that a reader does not know and skips.
-/

namespace Flotilla.Wire

/-- The value of a field. -/
inductive Value where
  /-- A number of variable length. -/
  | number (n : Nat)
  /-- Eight bytes. -/
  | eight (b : Bytes)
  /-- A byte string with its length in front. -/
  | bytes (b : Bytes)
  /-- Fields between a start and an end mark; they are skipped. -/
  | group
  /-- Four bytes. -/
  | four (b : Bytes)
  deriving DecidableEq, Repr

/-- A field of a message body. -/
structure Field where
  /-- The number that says which field it is; never 0. -/
  number : Nat
  /-- What it holds. -/
  value : Value
  deriving DecidableEq, Repr

namespace Value

/-- The number, if the value is one. -/
def number? : Value → Option Nat
  | .number n => some n
  | _ => none

/-- The byte string, if the value is one. -/
def bytes? : Value → Option Bytes
  | .bytes b => some b
  | _ => none

/-- The text, if the value is a byte string that encodes one. -/
def text? (v : Value) : Option String := v.bytes?.bind Text.ofUtf8?

end Value

/-- The mark in front of a number. -/
def numberMark (field : Nat) : Bytes := Varint.encode (field * 8)

/-- The mark in front of a byte string. -/
def bytesMark (field : Nat) : Bytes := Varint.encode (field * 8 + 2)

/-- A field with a byte string, also when the string is empty. -/
def putBody (field : Nat) (b : Bytes) : Bytes :=
  bytesMark field ++ Varint.encode b.length ++ b

/-- A field with a number; the number 0 is left out. -/
def putNumber (field n : Nat) : Bytes :=
  if n = 0 then [] else numberMark field ++ Varint.encode n

/-- A field with a byte string; the empty string is left out. -/
def putBytes (field : Nat) (b : Bytes) : Bytes := if b.isEmpty then [] else putBody field b

/-- A field with a text; the empty text is left out. -/
def putText (field : Nat) (s : String) : Bytes := putBytes field (Text.utf8 s)

/-- Read a field mark: the number of the field and the form of its value. -/
def readMark (b : Bytes) : Option (Nat × Nat × Bytes) :=
  match Varint.read b with
  | none => none
  | some (mark, rest) =>
    if mark < UInt32.size ∧ mark / 8 ≠ 0 then some (mark / 8, mark % 8, rest) else none

/-- Split off the first `n` bytes, if there are so many. -/
def takeBytes (n : Nat) (b : Bytes) : Option (Bytes × Bytes) :=
  if (b.take n).length = n then some (b.take n, b.drop n) else none

/-- Read a byte string with its length in front. -/
def readSized (b : Bytes) : Option (Bytes × Bytes) :=
  match Varint.read b with
  | none => none
  | some (n, rest) => takeBytes n rest

/-- Read a value of one of the forms that need no end mark. -/
def readPlain (form : Nat) (b : Bytes) : Option (Value × Bytes) :=
  if form = 0 then (Varint.read b).map fun p => (.number p.1, p.2)
  else if form = 1 then (takeBytes 8 b).map fun p => (.eight p.1, p.2)
  else if form = 2 then (readSized b).map fun p => (.bytes p.1, p.2)
  else if form = 5 then (takeBytes 4 b).map fun p => (.four p.1, p.2)
  else none

private theorem length_lt_of_readMark {b : Bytes} {n f : Nat} {rest : Bytes}
    (h : readMark b = some (n, f, rest)) : rest.length < b.length := by
  unfold readMark at h
  split at h
  · cases h
  · next hr =>
    split at h
    · cases h; exact Varint.length_lt_of_read hr
    · cases h

private theorem length_le_of_takeBytes {n : Nat} {b x rest : Bytes}
    (h : takeBytes n b = some (x, rest)) : rest.length ≤ b.length := by
  unfold takeBytes at h
  split at h
  · cases h; simp
  · cases h

private theorem length_le_of_readSized {b x rest : Bytes} (h : readSized b = some (x, rest)) :
    rest.length ≤ b.length := by
  unfold readSized at h
  split at h
  · cases h
  · next hr =>
    exact Nat.le_trans (length_le_of_takeBytes h) (Nat.le_of_lt (Varint.length_lt_of_read hr))

private theorem length_le_of_readPlain {form : Nat} {b : Bytes} {v : Value} {rest : Bytes}
    (h : readPlain form b = some (v, rest)) : rest.length ≤ b.length := by
  unfold readPlain at h
  split at h
  · obtain ⟨p, hp, he⟩ := Option.map_eq_some_iff.1 h
    cases he; exact Nat.le_of_lt (Varint.length_lt_of_read hp)
  split at h
  · obtain ⟨p, hp, he⟩ := Option.map_eq_some_iff.1 h
    cases he; exact length_le_of_takeBytes hp
  split at h
  · obtain ⟨p, hp, he⟩ := Option.map_eq_some_iff.1 h
    cases he; exact length_le_of_readSized hp
  split at h
  · obtain ⟨p, hp, he⟩ := Option.map_eq_some_iff.1 h
    cases he; exact length_le_of_takeBytes hp
  · cases h

/-- Skip the fields of groups up to the end of the outermost one. `opened` holds the numbers of
the groups that are open, the innermost first. A field inside a group may be no deeper than
`depth` groups. -/
def skipGroup (depth : Nat) (opened : List Nat) (b : Bytes) : Option Bytes :=
  match _hm : readMark b with
  | none => none
  | some (number, form, rest) =>
    match opened with
    | [] => none
    | innermost :: outer =>
      if form = 4 then
        if number = innermost then
          if outer.isEmpty then some rest else skipGroup depth outer rest
        else none
      else if depth ≤ opened.length then none
      else if form = 3 then skipGroup depth (number :: opened) rest
      else match _hp : readPlain form rest with
        | none => none
        | some (_, rest') => skipGroup depth opened rest'
termination_by b.length
decreasing_by
  · exact length_lt_of_readMark _hm
  · exact length_lt_of_readMark _hm
  · exact Nat.lt_of_le_of_lt (length_le_of_readPlain _hp) (length_lt_of_readMark _hm)

/-- Skipping a group takes bytes. -/
theorem length_lt_of_skipGroup {depth : Nat} {opened : List Nat} {b rest : Bytes}
    (h : skipGroup depth opened b = some rest) : rest.length < b.length := by
  fun_induction skipGroup depth opened b with
  | case1 => cases h
  | case2 => cases h
  | case3 _ _ _ _ _ hm => cases h; exact length_lt_of_readMark hm
  | case4 _ _ _ _ _ hm ih => exact Nat.lt_trans (ih h) (length_lt_of_readMark hm)
  | case5 => cases h
  | case6 _ _ _ _ _ _ _ _ hd => rw [if_pos hd] at h; cases h
  | case7 _ _ _ _ _ hd hm _ ih =>
    rw [if_neg hd, if_pos rfl] at h
    exact Nat.lt_trans (ih h) (length_lt_of_readMark hm)
  | case8 _ _ _ _ _ _ _ _ hf hp hd =>
    rw [if_neg hd, if_neg hf] at h
    split at h
    · cases h
    · next hq => rw [hp] at hq; cases hq
  | case9 _ _ _ _ hm _ _ _ hf _ _ hp hd ih =>
    rw [if_neg hd, if_neg hf] at h
    split at h
    · cases h
    · next hq =>
      rw [hp] at hq
      cases hq
      exact Nat.lt_trans (ih h)
        (Nat.lt_of_le_of_lt (length_le_of_readPlain hp) (length_lt_of_readMark hm))

/-- Read one field; `depth` says how deep groups may nest. -/
def readField (depth : Nat) (b : Bytes) : Option (Field × Bytes) :=
  match readMark b with
  | none => none
  | some (number, form, rest) =>
    if form = 3 then (skipGroup depth [number] rest).map fun r => (⟨number, .group⟩, r)
    else (readPlain form rest).map fun p => (⟨number, p.1⟩, p.2)

/-- Reading a field takes bytes. -/
theorem length_lt_of_readField {depth : Nat} {b : Bytes} {f : Field} {rest : Bytes}
    (h : readField depth b = some (f, rest)) : rest.length < b.length := by
  unfold readField at h
  split at h
  · cases h
  · next hm =>
    split at h
    · obtain ⟨p, hp, he⟩ := Option.map_eq_some_iff.1 h
      cases he
      exact Nat.lt_trans (length_lt_of_skipGroup hp) (length_lt_of_readMark hm)
    · obtain ⟨p, hp, he⟩ := Option.map_eq_some_iff.1 h
      cases he
      exact Nat.lt_of_le_of_lt (length_le_of_readPlain hp) (length_lt_of_readMark hm)

/-- Read a body as its fields. -/
def readFields (depth : Nat) (b : Bytes) : Option (List Field) :=
  if b.isEmpty then some []
  else match _h : readField depth b with
    | none => none
    | some (f, rest) => (readFields depth rest).map (f :: ·)
termination_by b.length
decreasing_by exact length_lt_of_readField _h

/-- How deep groups may nest in the body of a message. -/
def bodyDepth : Nat := 100

end Flotilla.Wire
