/-!
# Ordered tables

A table holds at most one value per key and remembers the order in which its keys first came.
Writing a key that is already there keeps its place. The keys are distinct by construction, and
each operation is described through `get?` (`get?_set`, `get?_erase`).
-/

namespace Flotilla

universe u v

/-- Pairs with distinct keys, in the order in which the keys were first written. -/
structure Table (κ : Type u) (α : Type v) where
  /-- The pairs, oldest key first. -/
  entries : List (κ × α)
  /-- No key occurs twice. -/
  nodup : (entries.map Prod.fst).Nodup
  deriving DecidableEq, Repr

namespace Table

variable {κ : Type u} {α : Type v} [DecidableEq κ]

/-- The value at a key of a list of pairs: the first one found. -/
def lookup (k : κ) : List (κ × α) → Option α
  | [] => none
  | (k', v) :: rest => if k' = k then some v else lookup k rest

/-- Write a key: in its place when it is there, at the end when it is new. -/
def place (k : κ) (v : α) : List (κ × α) → List (κ × α)
  | [] => [(k, v)]
  | (k', v') :: rest => if k' = k then (k, v) :: rest else (k', v') :: place k v rest

/-- A written key is the only new key. -/
theorem mem_keys_place (k : κ) (v : α) (x : κ) (l : List (κ × α)) :
    x ∈ (place k v l).map Prod.fst ↔ x = k ∨ x ∈ l.map Prod.fst := by
  induction l with
  | nil => simp [place]
  | cons p rest ih =>
    by_cases h : p.1 = k
    · simp [place, h]
    · simp only [place, h, if_false, List.map_cons, List.mem_cons, ih]
      constructor
      · rintro (h | h | h) <;> simp [h]
      · rintro (h | h | h) <;> simp [h]

private theorem nodup_place (k : κ) (v : α) {l : List (κ × α)} (h : (l.map Prod.fst).Nodup) :
    ((place k v l).map Prod.fst).Nodup := by
  induction l with
  | nil => simp [place]
  | cons p rest ih =>
    simp only [List.map_cons, List.nodup_cons] at h
    by_cases hp : p.1 = k
    · simp only [place, hp, if_true, List.map_cons, List.nodup_cons]
      exact ⟨hp ▸ h.1, h.2⟩
    · rw [place, if_neg hp, List.map_cons, List.nodup_cons, mem_keys_place, not_or]
      exact ⟨⟨hp, h.1⟩, ih h.2⟩

omit [DecidableEq κ] in
/-- What is left of distinct keys is distinct. -/
theorem nodup_filter (p : κ × α → Bool) {l : List (κ × α)} (h : (l.map Prod.fst).Nodup) :
    ((l.filter p).map Prod.fst).Nodup :=
  List.Nodup.sublist (List.Sublist.map _ List.filter_sublist) h

/-- The table without keys. -/
def empty : Table κ α := ⟨[], by simp⟩

instance : EmptyCollection (Table κ α) := ⟨empty⟩

instance : Inhabited (Table κ α) := ⟨empty⟩

/-- The keys, oldest first. -/
def keys (t : Table κ α) : List κ := t.entries.map Prod.fst

/-- The values, in the order of their keys. -/
def values (t : Table κ α) : List α := t.entries.map Prod.snd

/-- How many keys there are. -/
def size (t : Table κ α) : Nat := t.entries.length

/-- Whether there is no key. -/
def isEmpty (t : Table κ α) : Bool := t.entries.isEmpty

/-- The value at a key. -/
def get? (t : Table κ α) (k : κ) : Option α := lookup k t.entries

/-- Whether a key is there. -/
def contains (t : Table κ α) (k : κ) : Bool := (t.get? k).isSome

/-- Write a key. A key that is there keeps its place. -/
def set (t : Table κ α) (k : κ) (v : α) : Table κ α :=
  ⟨place k v t.entries, nodup_place k v t.nodup⟩

/-- Change the value at a key, if it is there. -/
def modify (t : Table κ α) (k : κ) (f : α → α) : Table κ α :=
  match t.get? k with
  | some v => t.set k (f v)
  | none => t

/-- Remove a key. -/
def erase (t : Table κ α) (k : κ) : Table κ α :=
  ⟨t.entries.filter (·.1 ≠ k), nodup_filter _ t.nodup⟩

/-- The pairs that pass a test. -/
def filter (t : Table κ α) (p : κ → α → Bool) : Table κ α :=
  ⟨t.entries.filter fun e => p e.1 e.2, nodup_filter _ t.nodup⟩

/-- Write pairs from left to right: each key takes its first place and its last value. -/
def ofList (l : List (κ × α)) : Table κ α := l.foldl (fun t e => t.set e.1 e.2) ∅

private theorem lookup_place (k : κ) (v : α) (x : κ) (l : List (κ × α)) :
    lookup x (place k v l) = if k = x then some v else lookup x l := by
  induction l with
  | nil => simp [place, lookup]
  | cons p rest ih =>
    by_cases hp : p.1 = k
    · subst hp; by_cases hx : p.1 = x <;> simp [place, lookup, hx]
    · by_cases hx : p.1 = x
      · subst hx; simp [place, lookup, hp, Ne.symm hp]
      · simp [place, lookup, hp, hx, ih]

private theorem lookup_filter_ne (k x : κ) (l : List (κ × α)) :
    lookup x (l.filter (·.1 ≠ k)) = if k = x then none else lookup x l := by
  induction l with
  | nil => simp [lookup]
  | cons p rest ih =>
    by_cases hp : p.1 = k
    · subst hp
      rw [List.filter_cons_of_neg (by simp), ih]
      by_cases hx : p.1 = x <;> simp [lookup, hx]
    · rw [List.filter_cons_of_pos (by simpa using hp)]
      by_cases hx : p.1 = x
      · subst hx; simp [lookup, Ne.symm hp]
      · rw [lookup, if_neg hx, ih, lookup, if_neg hx]

/-- Of two lists in a row, the second counts for keys that the first has not. -/
theorem lookup_append (k : κ) (l m : List (κ × α)) :
    lookup k (l ++ m) = (lookup k l).or (lookup k m) := by
  induction l with
  | nil => rfl
  | cons p rest ih =>
    by_cases hp : p.1 = k
    · simp only [List.cons_append, lookup, hp, if_true, Option.some_or]
    · simp only [List.cons_append, lookup, hp, if_false, ih]

/-- What is found is in the list. -/
theorem mem_of_lookup {k : κ} {v : α} {l : List (κ × α)} (h : lookup k l = some v) :
    (k, v) ∈ l := by
  induction l with
  | nil => cases h
  | cons p rest ih =>
    by_cases hp : p.1 = k
    · simp only [lookup, hp, if_true, Option.some.injEq] at h
      subst hp h
      exact List.mem_cons_self
    · simp only [lookup, hp, if_false] at h
      exact List.mem_cons_of_mem p (ih h)

/-- Nothing is found exactly for keys that the list has not. -/
theorem lookup_eq_none_iff {k : κ} {l : List (κ × α)} :
    lookup k l = none ↔ k ∉ l.map Prod.fst := by
  induction l with
  | nil => simp [lookup]
  | cons p rest ih =>
    by_cases hp : p.1 = k
    · simp [lookup, hp]
    · simp [lookup, hp, ih, Ne.symm hp]

@[simp] theorem get?_empty (k : κ) : (∅ : Table κ α).get? k = none := rfl

/-- Reading after a write. -/
theorem get?_set (t : Table κ α) (k : κ) (v : α) (x : κ) :
    (t.set k v).get? x = if k = x then some v else t.get? x :=
  lookup_place k v x t.entries

@[simp] theorem get?_set_self (t : Table κ α) (k : κ) (v : α) : (t.set k v).get? k = some v := by
  rw [get?_set, if_pos rfl]

/-- Setting a key leaves every other key alone. -/
theorem get?_set_ne (t : Table κ α) {k x : κ} (v : α) (h : k ≠ x) :
    (t.set k v).get? x = t.get? x := by
  rw [get?_set, if_neg h]

/-- Reading after a change. -/
theorem get?_modify (t : Table κ α) (k : κ) (f : α → α) (x : κ) :
    (t.modify k f).get? x = if k = x then (t.get? x).map f else t.get? x := by
  unfold modify
  by_cases hx : k = x
  · subst hx
    cases h : t.get? k <;> simp [h]
  · cases h : t.get? k <;> simp [get?_set, hx]

/-- Reading after a removal. -/
theorem get?_erase (t : Table κ α) (k x : κ) :
    (t.erase k).get? x = if k = x then none else t.get? x :=
  lookup_filter_ne k x t.entries

/-- Where keys are distinct, looking one up finds exactly the pairs of the list. -/
theorem lookup_eq_some_iff {l : List (κ × α)} (h : (l.map Prod.fst).Nodup) (k : κ) (v : α) :
    lookup k l = some v ↔ (k, v) ∈ l := by
  induction l with
  | nil => simp [lookup]
  | cons p rest ih =>
    simp only [List.map_cons, List.nodup_cons] at h
    by_cases hp : p.1 = k
    · subst hp
      simp only [lookup, if_true, Option.some.injEq, List.mem_cons]
      constructor
      · rintro rfl; exact Or.inl rfl
      · rintro (h' | h')
        · rw [← h']
        · exact absurd (List.mem_map_of_mem (f := Prod.fst) h') h.1
    · have : (k, v) ≠ p := fun e => hp (e ▸ rfl)
      simp [lookup, hp, ih h.2, this]

/-- A value is read at a key exactly when the pair is in the table. -/
theorem get?_eq_some_iff (t : Table κ α) (k : κ) (v : α) :
    t.get? k = some v ↔ (k, v) ∈ t.entries :=
  lookup_eq_some_iff t.nodup k v

/-- A key is there exactly when a value is read at it. -/
theorem contains_eq_true_iff (t : Table κ α) (k : κ) :
    t.contains k = true ↔ ∃ v, t.get? k = some v :=
  Option.isSome_iff_exists

/-- A key is missing exactly when nothing is read at it. -/
theorem contains_eq_false_iff (t : Table κ α) (k : κ) :
    t.contains k = false ↔ t.get? k = none := by
  rw [contains, Option.isSome_eq_false_iff, Option.isNone_iff_eq_none]

/-- The keys are those at which a value is read. -/
theorem mem_keys_iff (t : Table κ α) (k : κ) : k ∈ t.keys ↔ t.contains k = true := by
  rw [contains, get?, keys, Option.isSome_iff_ne_none, ne_eq, lookup_eq_none_iff,
    Decidable.not_not]

/-- A value in a part of a table is in the table. -/
theorem get?_of_sublist {s t : Table κ α} (h : s.entries.Sublist t.entries) {k : κ} {v : α}
    (hk : s.get? k = some v) : t.get? k = some v :=
  (t.get?_eq_some_iff k v).2 (h.subset ((s.get?_eq_some_iff k v).1 hk))

private theorem filter_ne_of_notMem {l : List (κ × α)} {k : κ} (h : k ∉ l.map Prod.fst) :
    l.filter (·.1 ≠ k) = l :=
  List.filter_eq_self.2 fun _ he => decide_eq_true fun hek => h (hek ▸ List.mem_map_of_mem he)

private theorem length_filter_ne {l : List (κ × α)} (h : (l.map Prod.fst).Nodup) {k : κ}
    (hk : k ∈ l.map Prod.fst) : (l.filter (·.1 ≠ k)).length + 1 = l.length := by
  induction l with
  | nil => cases hk
  | cons p rest ih =>
    simp only [List.map_cons, List.nodup_cons] at h
    by_cases hp : p.1 = k
    · rw [List.filter_cons_of_neg (by simpa using hp), filter_ne_of_notMem (hp ▸ h.1),
        List.length_cons]
    · rw [List.filter_cons_of_pos (by simpa using hp), List.length_cons, List.length_cons,
        ih h.2 ((List.mem_cons.1 hk).resolve_left (Ne.symm hp))]

/-- Removing a key that is there takes away one pair. -/
theorem size_erase {t : Table κ α} {k : κ} {v : α} (h : t.get? k = some v) :
    (t.erase k).size + 1 = t.size :=
  length_filter_ne t.nodup ((t.mem_keys_iff k).2 ((t.contains_eq_true_iff k).2 ⟨v, h⟩))

private theorem keys_place (k : κ) (v : α) (l : List (κ × α)) :
    (place k v l).map Prod.fst =
      if k ∈ l.map Prod.fst then l.map Prod.fst else l.map Prod.fst ++ [k] := by
  induction l with
  | nil => simp [place]
  | cons p rest ih =>
    by_cases hp : p.1 = k
    · simp [place, hp]
    · simp only [place, hp, if_false, List.map_cons, List.mem_cons, Ne.symm hp, false_or,
        List.cons_append] at ih ⊢
      rw [ih]
      split <;> rfl

/-- The keys after a write: the same ones, or a new one at the end. -/
theorem keys_set (t : Table κ α) (k : κ) (v : α) :
    (t.set k v).keys = if k ∈ t.keys then t.keys else t.keys ++ [k] :=
  keys_place k v t.entries

/-- Removing a key filters it from the keys. -/
theorem keys_erase (t : Table κ α) (k : κ) : (t.erase k).keys = t.keys.filter (· ≠ k) := by
  rw [keys, keys, List.filter_map]
  rfl

/-- The keys after a removal, in some order, once the removed one is put to them again. -/
theorem perm_keys_erase {t : Table κ α} {k : κ} {v : α} (h : t.get? k = some v) :
    (k :: (t.erase k).keys).Perm t.keys := by
  have hmem : k ∈ t.keys := (mem_keys_iff t k).2 ((contains_eq_true_iff t k).2 ⟨v, h⟩)
  have hnodup : t.keys.Nodup := t.nodup
  have herase : t.keys.erase k = (t.erase k).keys := by
    rw [keys_erase, hnodup.erase_eq_filter]
    exact List.filter_congr fun _ _ => decide_not.symm
  exact herase ▸ (List.perm_cons_erase hmem).symm

private theorem place_place (k : κ) (v w : α) (l : List (κ × α)) :
    place k w (place k v l) = place k w l := by
  induction l with
  | nil => simp [place]
  | cons p rest ih =>
    by_cases hp : p.1 = k
    · simp [place, hp]
    · simp [place, hp, ih]

/-- Of two writes of a key the second counts. -/
@[simp] theorem set_set (t : Table κ α) (k : κ) (v w : α) : (t.set k v).set k w = t.set k w := by
  rw [set, set, mk.injEq]
  exact place_place k v w t.entries

private theorem place_of_lookup {k : κ} {v : α} {l : List (κ × α)} (h : lookup k l = some v) :
    place k v l = l := by
  induction l with
  | nil => cases h
  | cons p rest ih =>
    by_cases hp : p.1 = k
    · rw [lookup, if_pos hp, Option.some.injEq] at h
      subst hp h
      simp [place]
    · rw [lookup, if_neg hp] at h
      rw [place, if_neg hp, ih h]

/-- Writing what is there changes nothing. -/
theorem set_of_get? {t : Table κ α} {k : κ} {v : α} (h : t.get? k = some v) : t.set k v = t := by
  obtain ⟨l, hl⟩ := t
  rw [set, mk.injEq]
  exact place_of_lookup h

/-- Changing a value that is there is writing the changed value. -/
theorem modify_of_get? {t : Table κ α} {k : κ} {v : α} (h : t.get? k = some v) (f : α → α) :
    t.modify k f = t.set k (f v) := by
  rw [modify, h]

/-- Setting a key overrides what was done to it before. -/
theorem set_modify (t : Table κ α) (k : κ) (f : α → α) (v : α) :
    (t.modify k f).set k v = t.set k v := by
  unfold modify
  cases t.get? k with
  | none => rfl
  | some w => exact set_set t k (f w) v

private theorem place_of_notMem {k : κ} {l : List (κ × α)} (h : k ∉ l.map Prod.fst) (v : α) :
    place k v l = l ++ [(k, v)] := by
  induction l with
  | nil => rfl
  | cons p rest ih =>
    rw [List.map_cons, List.mem_cons, not_or] at h
    rw [place, if_neg (Ne.symm h.1), ih h.2, List.cons_append]

/-- Removing what has just been written under a new key. -/
theorem erase_set_of_fresh {t : Table κ α} {k : κ} (h : t.get? k = none) (v : α) :
    (t.set k v).erase k = t := by
  have hk : k ∉ t.entries.map Prod.fst := lookup_eq_none_iff.1 h
  obtain ⟨entries, hnodup⟩ := t
  rw [erase, mk.injEq]
  change (place k v entries).filter (·.1 ≠ k) = entries
  rw [place_of_notMem hk, List.filter_append, filter_ne_of_notMem hk,
    List.filter_cons_of_neg (by simp)]
  exact List.append_nil entries

/-- Writing the pairs of a table again yields the table. -/
theorem ofList_entries (t : Table κ α) : ofList t.entries = t := by
  obtain ⟨l, h⟩ := t
  suffices hfold : ∀ (l : List (κ × α)) (s : Table κ α),
      ((s.entries ++ l).map Prod.fst).Nodup →
        (l.foldl (fun t e => t.set e.1 e.2) s).entries = s.entries ++ l by
    have hentries := hfold l ∅ h
    cases hs : ofList l with
    | mk entries nodup =>
      have heq : entries = l := by
        rw [ofList] at hs
        rw [hs] at hentries
        exact hentries
      subst heq
      rfl
  intro l
  induction l with
  | nil => exact fun s _ => (List.append_nil s.entries).symm
  | cons e rest ih =>
    intro s hs
    have hnew : e.1 ∉ s.entries.map Prod.fst := by
      rw [List.map_append, List.nodup_append] at hs
      exact fun hm => hs.2.2 _ hm _ List.mem_cons_self rfl
    have hset : (s.set e.1 e.2).entries = s.entries ++ [e] := place_of_notMem hnew e.2
    have hlist : s.entries ++ e :: rest = (s.set e.1 e.2).entries ++ rest := by
      rw [hset, List.append_assoc]
      rfl
    rw [List.foldl_cons, hlist]
    exact ih _ (hlist ▸ hs)

end Table

end Flotilla
