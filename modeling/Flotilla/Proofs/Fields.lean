import Flotilla.Proofs.Payload

/-!
# Fields read back from a payload

Fields that are without separators and trimmed are read as they were written, except that a
repeated name keeps its first place and its last value (`Fields.parse_encode`). Whatever a text
holds, the fields that are read of it are of that kind, so writing them and reading them again
changes nothing (`Fields.reads_written`).
-/

namespace Flotilla

namespace Table

variable {κ : Type} {α : Type} [DecidableEq κ]

/-- The keys come in the order in which they are written first. -/
theorem keys_ofList (l : List (κ × α)) : (ofList l).keys = (l.map Prod.fst).eraseDups := by
  induction l using List.reverseRecOn with
  | nil => rfl
  | append_singleton l e ih =>
    rw [ofList_concat, keys_set, ih, List.map_append, List.eraseDups_append]
    by_cases h : e.1 ∈ l.map Prod.fst
    · simp [List.removeAll, h]
    · simp [List.removeAll, h, List.eraseDups_cons]

/-- Each key has the value that is written last. -/
theorem get?_ofList (l : List (κ × α)) (k : κ) : (ofList l).get? k = lookup k l.reverse := by
  induction l using List.reverseRecOn with
  | nil => rfl
  | append_singleton l e ih =>
    rw [get?_ofList_concat, ih, List.reverse_append]
    rfl

end Table

namespace Fields

/-- A field that is written and read without a change. -/
structure Clean (field : String × String) : Prop where
  name : Plain field.1
  value : Survives field.2

instance (field : String × String) : Decidable (Clean field) :=
  decidable_of_iff (Plain field.1 ∧ Survives field.2) ⟨fun h => ⟨h.1, h.2⟩, fun h => ⟨h.1, h.2⟩⟩

/-- A clean field survives the trip through its text. -/
theorem field?_of_clean {field : String × String} (h : Clean field) :
    field? (encodeField (field.1.toList, field.2.toList)) = some field := by
  have hvalue : Text.trim field.2.toList = field.2.toList := h.value.2
  rw [field?_encodeField h.name, hvalue, String.ofList_toList]

private theorem Clean.notMem_encodeField {field : String × String} (h : Clean field) :
    ';' ∉ encodeField (field.1.toList, field.2.toList) := by
  simp only [encodeField, List.mem_append, List.mem_cons, not_or]
  exact ⟨h.name.semicolon, by decide, h.value.1⟩

/-- Clean fields are read in their order. -/
theorem parse_encode {fields : List (String × String)} (h : ∀ field ∈ fields, Clean field) :
    parse (encode fields) = Table.ofList fields := by
  have hread : (fields.map fun field => encodeField (field.1.toList, field.2.toList)).filterMap
      field? = fields := by
    rw [List.filterMap_map]
    exact (List.filterMap_congr fun field hfield => field?_of_clean (h field hfield)).trans
      List.filterMap_some
  rw [parse, encode, String.toList_ofList]
  cases fields with
  | nil => rfl
  | cons first rest =>
    rw [Text.split_join (by simp), hread]
    intro piece hpiece
    obtain ⟨field, hfield, rfl⟩ := List.mem_map.1 hpiece
    exact (h field hfield).notMem_encodeField

/-- Whatever a text holds, the fields that are read of it are clean. -/
theorem clean_of_mem_parse {text : String} {field : String × String}
    (h : field ∈ (parse text).entries) : Clean field := by
  have hclean := plain_and_survives_of_get?_parse ((Table.get?_eq_some_iff _ _ _).2 h)
  exact ⟨hclean.1, hclean.2⟩

/-- Of clean fields each name is read once, in the order in which the names come first, with the
value that it has last. What is read of any text are clean fields with distinct names, and they are
read again when they are written. -/
theorem reads_written {fields : List (String × String)} (h : ∀ field ∈ fields, Clean field)
    (text : String) :
    (parse (encode fields)).keys = (fields.map Prod.fst).eraseDups ∧
      (∀ name, (parse (encode fields)).get? name = Table.lookup name fields.reverse) ∧
      (parse text).keys.Nodup ∧ (∀ field ∈ (parse text).entries, Clean field) ∧
      parse (encode (parse text).entries) = parse text := by
  rw [parse_encode h, parse_encode fun field => clean_of_mem_parse, Table.ofList_entries]
  exact ⟨Table.keys_ofList fields, Table.get?_ofList fields, (parse text).nodup,
    fun field => clean_of_mem_parse, rfl⟩

/-- Fields with a name that comes twice and one that is empty; their values are empty, or hold
equals signs and white space. -/
def mixedFields : List (String × String) :=
  [("bundle", "fw a.bin"), ("", "k=v="), ("version", "1.0"), ("bundle", "")]

/-- Names and values survive as they are, the empty ones included. Of a text full of white space
the same fields come back once it has been written again. -/
theorem reads_written_mixedFields :
    (∀ field ∈ mixedFields, Clean field) ∧
      (parse (encode mixedFields)).keys = ["bundle", "", "version"] ∧
      (parse (encode mixedFields)).get? "bundle" = some "" ∧
      (parse (encode mixedFields)).get? "" = some "k=v=" ∧
      parse (encode (parse "uptime = 17;garbage;\u00a0a b\t=; = x=y;uptime=18").entries) =
        parse "uptime = 17;garbage;\u00a0a b\t=; = x=y;uptime=18" := by
  have hclean : ∀ field ∈ mixedFields, Clean field := by decide
  obtain ⟨hkeys, hget, -, -, hagain⟩ :=
    reads_written hclean "uptime = 17;garbage;\u00a0a b\t=; = x=y;uptime=18"
  exact ⟨hclean, hkeys.trans (by decide), (hget _).trans (by decide), (hget _).trans (by decide),
    hagain⟩

end Fields

end Flotilla
