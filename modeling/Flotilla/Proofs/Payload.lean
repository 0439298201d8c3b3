import Flotilla.Rollout
import Mathlib.Data.List.DropRight

/-!
# What is left of a value in a payload

A payload is cut at every semicolon, and names and values lose the white space around them. So a
value that is read is without semicolons and trimmed, whatever was written
(`Fields.plain_and_survives`), and a last field with such a value is read as it was written
(`Fields.get?_parse_encode`).
-/

namespace Flotilla

namespace Text

variable {sep : Char}

/-- The pieces of two texts with a separator in between are those of the one and those of the
other. -/
theorem split_append (sep : Char) (a b : List Char) :
    split sep (a ++ sep :: b) = split sep a ++ split sep b := by
  induction a with
  | nil => simp [split]
  | cons c a ih =>
    rw [List.cons_append, split, split, ih]
    split
    · rfl
    · cases hs : split sep a with
      | nil => exact absurd hs (split_ne_nil sep a)
      | cons piece pieces => rfl

/-- A text without a separator is one piece. -/
theorem split_of_notMem {s : List Char} (h : sep ∉ s) : split sep s = [s] := by
  induction s with
  | nil => rfl
  | cons c s ih =>
    obtain ⟨hc, hs⟩ := not_or.1 (List.mem_cons.not.1 h)
    rw [split, if_neg (Ne.symm hc), ih hs]

/-- What stands before the first separator is the beginning of the first piece. -/
theorem split_append_of_notMem {a : List Char} (h : sep ∉ a) (b : List Char) :
    ∃ piece pieces,
      split sep b = piece :: pieces ∧ split sep (a ++ b) = (a ++ piece) :: pieces := by
  induction a with
  | nil =>
    obtain ⟨piece, pieces, hb⟩ := List.exists_cons_of_ne_nil (split_ne_nil sep b)
    exact ⟨piece, pieces, hb, hb⟩
  | cons c a ih =>
    obtain ⟨hc, ha⟩ := not_or.1 (List.mem_cons.not.1 h)
    obtain ⟨piece, pieces, hb, hab⟩ := ih ha
    refine ⟨piece, pieces, hb, ?_⟩
    rw [List.cons_append, split, if_neg (Ne.symm hc), hab]
    rfl

/-- Pieces without a separator are found again when they are written one after the other. -/
theorem split_join {pieces : List (List Char)} (hne : pieces ≠ [])
    (hclean : ∀ piece ∈ pieces, sep ∉ piece) : split sep (join sep pieces) = pieces := by
  induction pieces with
  | nil => exact absurd rfl hne
  | cons piece pieces ih =>
    have hpiece := split_of_notMem (hclean piece List.mem_cons_self)
    cases pieces with
    | nil => exact hpiece
    | cons next pieces =>
      rw [join, split_append, hpiece,
        ih (List.cons_ne_nil _ _) fun p hp => hclean p (List.mem_cons_of_mem _ hp)]
      · rfl
      · exact List.cons_ne_nil _ _

/-- The pieces of a text are the only ones, at least one and none with a separator, that give the
text when they are written one after the other. -/
theorem split_eq_iff {s : List Char} {pieces : List (List Char)} : split sep s = pieces ↔
    pieces ≠ [] ∧ (∀ piece ∈ pieces, sep ∉ piece) ∧ join sep pieces = s := by
  constructor
  · rintro rfl
    exact ⟨split_ne_nil sep s, fun _ => not_mem_of_mem_split, join_split sep s⟩
  · rintro ⟨hne, hclean, rfl⟩
    exact split_join hne hclean

private theorem cut_append {a : List Char} (h : sep ∉ a) (b : List Char) :
    cut sep (a ++ sep :: b) = some (a, b) := by
  induction a with
  | nil => rw [List.nil_append, cut, if_pos rfl]
  | cons c a ih =>
    obtain ⟨hc, ha⟩ := not_or.1 (List.mem_cons.not.1 h)
    rw [List.cons_append, cut, if_neg (Ne.symm hc), ih ha]
    rfl

/-- A text is cut into what stands before the first separator and what comes after it. -/
theorem cut_eq_some_iff {s a b : List Char} :
    cut sep s = some (a, b) ↔ sep ∉ a ∧ s = a ++ sep :: b := by
  constructor
  · intro h
    induction s generalizing a with
    | nil => cases h
    | cons c s ih =>
      rw [cut] at h
      split at h
      · next hc =>
        cases h
        exact ⟨List.not_mem_nil, by rw [hc, List.nil_append]⟩
      · next hc =>
        obtain ⟨⟨a', b'⟩, hcut, hsame⟩ := Option.map_eq_some_iff.1 h
        cases hsame
        obtain ⟨ha, rfl⟩ := ih hcut
        exact ⟨List.mem_cons.not.2 (not_or.2 ⟨Ne.symm hc, ha⟩), rfl⟩
  · rintro ⟨ha, rfl⟩
    exact cut_append ha b

private theorem trim_eq (s : List Char) : trim s = (s.dropWhile isBlank).rdropWhile isBlank := rfl

private theorem mem_of_mem_trim {s : List Char} {c : Char} (h : c ∈ trim s) : c ∈ s :=
  (List.dropWhile_sublist _).subset ((List.rdropWhile_prefix _ _).subset h)

/-- A text is trimmed once and for all. -/
theorem trimmed_trim (s : List Char) : Trimmed (trim s) := by
  rw [Trimmed, trim_eq (trim s)]
  have hfront : (trim s).dropWhile isBlank = trim s := by
    rw [List.dropWhile_eq_self_iff]
    intro hlength
    obtain ⟨rest, hrest⟩ := List.rdropWhile_prefix isBlank (s.dropWhile isBlank)
    have hdropped : s.dropWhile isBlank ≠ [] := by
      rintro hnil
      rw [trim_eq, hnil] at hlength
      cases hlength
    have hhead := List.head_dropWhile_not isBlank hdropped
    have hsame : (trim s)[0] = (s.dropWhile isBlank).head hdropped := by
      rw [List.head_eq_getElem]
      exact List.IsPrefix.getElem ⟨rest, hrest⟩ hlength
    rw [hsame, hhead]
    exact Bool.false_ne_true
  rw [hfront, trim_eq, List.rdropWhile_idempotent]

end Text

namespace Table

variable {κ : Type} {α : Type} [DecidableEq κ]

/-- A list with one more pair is the table with that pair set. -/
theorem ofList_concat (l : List (κ × α)) (k : κ) (v : α) :
    ofList (l ++ [(k, v)]) = (ofList l).set k v := by
  rw [ofList, List.foldl_append]
  rfl

/-- The last value that is written to a key is the one that is read. -/
theorem get?_ofList_concat (l : List (κ × α)) (k : κ) (v : α) (x : κ) :
    (ofList (l ++ [(k, v)])).get? x = if k = x then some v else (ofList l).get? x := by
  rw [ofList_concat, get?_set]

private theorem mem_of_get?_ofList {l : List (κ × α)} {k : κ} {v : α}
    (h : (ofList l).get? k = some v) : (k, v) ∈ l := by
  induction l using List.reverseRecOn with
  | nil => cases h
  | append_singleton l e ih =>
    obtain ⟨k', v'⟩ := e
    rw [get?_ofList_concat] at h
    split at h
    · next hk =>
      cases h
      subst hk
      exact List.mem_append_right _ List.mem_cons_self
    · exact List.mem_append_left _ (ih h)

private theorem exists_get?_ofList {l : List (κ × α)} {k : κ} {v : α} (h : (k, v) ∈ l) :
    ∃ w, (ofList l).get? k = some w := by
  induction l using List.reverseRecOn with
  | nil => cases h
  | append_singleton l e ih =>
    obtain ⟨k', v'⟩ := e
    rw [get?_ofList_concat]
    split
    · exact ⟨v', rfl⟩
    · next hk =>
      rcases List.mem_append.1 h with hl | he
      · exact ih hl
      · cases List.mem_singleton.1 he
        exact absurd rfl hk

/-- A key that occurs with one value only has it. -/
theorem get?_ofList_eq_some {l : List (κ × α)} {k : κ} {v : α} (h : (k, v) ∈ l)
    (hunique : ∀ w, (k, w) ∈ l → w = v) : (ofList l).get? k = some v := by
  obtain ⟨w, hw⟩ := exists_get?_ofList h
  rw [hw, hunique w (mem_of_get?_ofList hw)]

/-- A key that does not occur has no value. -/
theorem get?_ofList_eq_none {l : List (κ × α)} {k : κ} (h : ∀ v, (k, v) ∉ l) :
    (ofList l).get? k = none := by
  cases hget : (ofList l).get? k with
  | none => rfl
  | some v => exact (h v (mem_of_get?_ofList hget)).elim

/-- Later values go before earlier ones. -/
theorem get?_ofList_append (l m : List (κ × α)) (k : κ) :
    (ofList (l ++ m)).get? k = ((ofList m).get? k).or ((ofList l).get? k) := by
  induction m using List.reverseRecOn with
  | nil =>
    rw [List.append_nil]
    rfl
  | append_singleton m e ih =>
    obtain ⟨k', v⟩ := e
    rw [← List.append_assoc, get?_ofList_concat, get?_ofList_concat]
    split
    · rfl
    · exact ih

end Table

namespace Fields

/-- A value that a payload leaves as it is. -/
def Survives (value : String) : Prop := ';' ∉ value.toList ∧ Text.Trimmed value.toList

instance (value : String) : Decidable (Survives value) := inferInstanceAs (Decidable (_ ∧ _))

/-- A name that is read as it was written. -/
structure Plain (name : String) : Prop where
  semicolon : ';' ∉ name.toList
  equals : '=' ∉ name.toList
  trimmed : Text.Trimmed name.toList

instance (name : String) : Decidable (Plain name) :=
  decidable_of_iff (';' ∉ name.toList ∧ '=' ∉ name.toList ∧ Text.Trimmed name.toList)
    ⟨fun h => ⟨h.1, h.2.1, h.2.2⟩, fun h => ⟨h.1, h.2, h.3⟩⟩

/-- A field with a plain name is read with its name, and with its value trimmed. -/
theorem field?_encodeField {name : String} (hname : Plain name) (value : List Char) :
    field? (encodeField (name.toList, value)) = some (name, String.ofList (Text.trim value)) := by
  have htrimmed : Text.trim name.toList = name.toList := hname.trimmed
  rw [field?, encodeField, Text.cut_append hname.equals, Option.map_some, htrimmed,
    String.ofList_toList]

/-- What is read of a piece between semicolons would be read again as it is. -/
theorem plain_and_survives {piece : List Char} (hpiece : ';' ∉ piece) {name value : String}
    (h : field? piece = some (name, value)) : Plain name ∧ Survives value := by
  obtain ⟨⟨before, after⟩, hcut, hsame⟩ := Option.map_eq_some_iff.1 h
  cases hsame
  obtain ⟨hequals, rfl⟩ := Text.cut_eq_some_iff.1 hcut
  simp only [List.mem_append, List.mem_cons, not_or] at hpiece
  obtain ⟨hbefore, -, hafter⟩ := hpiece
  refine ⟨⟨?_, ?_, ?_⟩, ?_, ?_⟩ <;> rw [String.toList_ofList]
  · exact fun hmem => hbefore (Text.mem_of_mem_trim hmem)
  · exact fun hmem => hequals (Text.mem_of_mem_trim hmem)
  · exact Text.trimmed_trim before
  · exact fun hmem => hafter (Text.mem_of_mem_trim hmem)
  · exact Text.trimmed_trim after

/-- So is what is read of a payload. -/
theorem plain_and_survives_of_get?_parse {text name value : String}
    (h : (parse text).get? name = some value) : Plain name ∧ Survives value := by
  obtain ⟨piece, hpiece, hfield⟩ := List.mem_filterMap.1 (Table.mem_of_get?_ofList h)
  exact plain_and_survives (Text.not_mem_of_mem_split hpiece) hfield

/-- The pieces of two fields, the second of which is not cut before its value. -/
theorem split_encode_pair (first second : String × String) (hname : Plain second.1) :
    ∃ piece pieces, Text.split ';' second.2.toList = piece :: pieces ∧
      Text.split ';' (encode [first, second]).toList =
        Text.split ';' (encodeField (first.1.toList, first.2.toList)) ++
          encodeField (second.1.toList, piece) :: pieces := by
  have hclean : ';' ∉ second.1.toList ++ ['='] := by
    rw [List.mem_append, not_or]
    exact ⟨hname.semicolon, by decide⟩
  obtain ⟨piece, pieces, hvalue, hsecond⟩ :=
    Text.split_append_of_notMem hclean second.2.toList
  refine ⟨piece, pieces, hvalue, ?_⟩
  have htext : (encode [first, second]).toList =
      encodeField (first.1.toList, first.2.toList) ++
        ';' :: (second.1.toList ++ ['='] ++ second.2.toList) := by
    rw [encode, String.toList_ofList, List.append_assoc]
    rfl
  rw [htext, Text.split_append, hsecond, List.append_assoc]
  rfl

/-- Under the name of the second of two fields something is read, however the first one looks. -/
theorem exists_get?_parse_encode (first : String × String) {name : String} (hname : Plain name)
    (value : String) :
    ∃ read, (parse (encode [first, (name, value)])).get? name = some read := by
  obtain ⟨piece, pieces, -, hsplit⟩ := split_encode_pair first (name, value) hname
  refine Table.exists_get?_ofList (v := String.ofList (Text.trim piece)) ?_
  rw [hsplit]
  refine List.mem_filterMap.2 ⟨_, ?_, field?_encodeField hname piece⟩
  exact List.mem_append_right _ List.mem_cons_self

/-- A value that survives is read as it was written, however the field before it looks. -/
theorem get?_parse_encode (first : String × String) {name value : String} (hname : Plain name)
    (hvalue : Survives value) :
    (parse (encode [first, (name, value)])).get? name = some value := by
  obtain ⟨piece, pieces, hpieces, hsplit⟩ := split_encode_pair first (name, value) hname
  rw [Text.split_of_notMem hvalue.1] at hpieces
  cases hpieces
  have htrimmed : Text.trim value.toList = value.toList := hvalue.2
  rw [parse, hsplit, List.filterMap_append, List.filterMap_cons_some (field?_encodeField hname _),
    List.filterMap_nil, Table.get?_ofList_concat, if_pos rfl, htrimmed, String.ofList_toList]

/-- A single field with a value that survives. -/
theorem get?_parse_field {name value : String} (hname : Plain name) (hvalue : Survives value) :
    (parse (name ++ "=" ++ value)).get? name = some value := by
  have htext : (name ++ "=" ++ value).toList = encodeField (name.toList, value.toList) := by
    rw [String.toList_append, String.toList_append, List.append_assoc]
    rfl
  have hclean : ';' ∉ encodeField (name.toList, value.toList) := by
    rw [encodeField, List.mem_append, List.mem_cons, not_or, not_or]
    exact ⟨hname.semicolon, by decide, hvalue.1⟩
  have htrimmed : Text.trim value.toList = value.toList := hvalue.2
  rw [parse, htext, Text.split_of_notMem hclean,
    List.filterMap_cons_some (field?_encodeField hname _), List.filterMap_nil, htrimmed,
    String.ofList_toList]
  exact Table.get?_set_self ..

end Fields

namespace Rollout

private theorem plain_version : Fields.Plain "version" := ⟨by decide, by decide, by decide⟩

/-- The payload of a deployment. -/
def deployment (bundle version : String) : String :=
  Fields.encode [("bundle", bundle), ("version", version)]

/-- The version that a device takes from the payload of a deployment. -/
def arriving (bundle version : String) : String :=
  ((Fields.parse (deployment bundle version)).get? "version").getD ""

/-- A device finds a version in the payload of every deployment. -/
theorem get?_version_deployment (bundle version : String) :
    (Fields.parse (deployment bundle version)).get? "version" = some (arriving bundle version) := by
  obtain ⟨read, hread⟩ :=
    Fields.exists_get?_parse_encode ("bundle", bundle) plain_version version
  rw [arriving, deployment, hread]
  rfl

/-- The version that arrives with a bundle survives the trip through a payload. -/
theorem survives_arriving (bundle version : String) :
    Fields.Survives (arriving bundle version) :=
  (Fields.plain_and_survives_of_get?_parse (get?_version_deployment bundle version)).2

/-- Exactly the versions that survive arrive as they were sent, whatever the bundle is called. -/
theorem arriving_eq_iff (bundle version : String) :
    arriving bundle version = version ↔ Fields.Survives version := by
  constructor
  · intro h
    rw [← h]
    exact survives_arriving bundle version
  · intro h
    have hread := Fields.get?_parse_encode ("bundle", bundle) plain_version h
    exact Option.some.inj ((get?_version_deployment bundle version).symm.trans hread)

/-- A version that survives is read from a reply as the device reported it. -/
theorem get?_version_reply {version : String} (h : Fields.Survives version) :
    (Fields.parse ("version=" ++ version)).get? "version" = some version := by
  have htext : "version=" = "version" ++ "=" := by decide
  rw [htext]
  exact Fields.get?_parse_field plain_version h

end Rollout

end Flotilla
