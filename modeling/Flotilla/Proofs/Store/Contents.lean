import Flotilla.Proofs.Store.Versions
import Mathlib.Data.Finset.Card
import Mathlib.Data.List.Lex

/-!
# What a store holds

A store keeps records and the last versions of removed keys in two tables. What can be seen of them
is a book with two columns: what each key reads as, and the last version it ever had. A change
enters its key in the book and no other (`Store.book_apply`), so a commit that is taken enters its
changes one after the other; one that is refused leaves everything as it is (`Store.commit_whole`).
Looking at all keys with the same beginning finds each of them once, in the order of their bytes
(`Store.sorted_scan`): keys are compared as texts, and the bytes of texts compare in the same way
(`Text.utf8_lt`).
-/

namespace Flotilla

namespace Text

private theorem utf8_eq (s : String) : utf8 s = s.toList.flatMap String.utf8EncodeChar := by
  rw [utf8, String.toUTF8_eq_toByteArray, ← String.utf8Encode_toList, List.utf8Encode,
    List.toList_data_toByteArray]

/-- The bytes of a smaller character come first, whatever follows. -/
theorem encodeChar_append_lt {c d : Char} (h : c < d) (x y : Bytes) :
    String.utf8EncodeChar c ++ x < String.utf8EncodeChar d ++ y := by
  have hlt : c.val.toNat < d.val.toNat := h
  have hd : d.val.toNat < 0x110000 := by
    rcases d.valid with hd | hd
    · exact Nat.lt_trans hd (by decide)
    · exact hd.2
  unfold String.utf8EncodeChar
  dsimp only
  generalize c.val.toNat = v at hlt
  generalize d.val.toNat = w at hlt hd
  have hv : v < 0x110000 := by omega
  -- with more bytes the lead byte is greater; with as many the bytes are digits to the base 64
  split_ifs <;>
    simp only [List.cons_append, List.nil_append, List.cons_lt_cons_iff, UInt8.lt_iff_toNat_lt,
      ← UInt8.toNat_inj, UInt8.toNat_ofNat'] <;>
    simp (disch := omega) only [Nat.mod_eq_of_lt] <;> omega

private theorem flatMap_encodeChar_lt {l m : List Char} (h : l < m) :
    l.flatMap String.utf8EncodeChar < m.flatMap String.utf8EncodeChar := by
  induction l generalizing m with
  | nil =>
    cases m with
    | nil => exact absurd h (List.not_lt_nil [])
    | cons d m =>
      rw [List.flatMap_nil, List.flatMap_cons]
      obtain ⟨b, bytes, hd⟩ := List.exists_cons_of_ne_nil (@String.utf8EncodeChar_ne_nil d)
      rw [hd]
      exact List.nil_lt_cons b _
  | cons c l ih =>
    cases m with
    | nil => exact absurd h (List.not_lt_nil _)
    | cons d m =>
      rw [List.flatMap_cons, List.flatMap_cons]
      rcases List.cons_lt_cons_iff.1 h with hcd | ⟨rfl, hlm⟩
      · exact encodeChar_append_lt hcd _ _
      · exact List.append_left_lt (ih hlm)

/-- Texts compare as their bytes do. -/
theorem utf8_lt {a b : String} (h : a < b) : utf8 a < utf8 b := by
  rw [utf8_eq, utf8_eq]
  exact flatMap_encodeChar_lt h

end Text

/-- What is to be seen of the keys of a store. -/
@[ext]
structure Book where
  /-- What each key reads as. -/
  shown : String → Option Record
  /-- The last version that each key ever had. -/
  last : String → Nat

/-- Enter a change: it concerns its own key alone. -/
def Book.enter (b : Book) : Write → Book
  | .put key value =>
    ⟨fun x => if key = x then some ⟨value, b.last key + 1⟩ else b.shown x,
      fun x => if key = x then b.last key + 1 else b.last x⟩
  | .delete key => ⟨fun x => if key = x then none else b.shown x, b.last⟩

namespace Store

variable {s : Store}

/-- The book of a store. -/
def book (s : Store) : Book := ⟨s.read, s.lastVersion⟩

/-- A write makes its entry in the book. -/
theorem book_apply (s : Store) (w : Write) : (s.apply w).book = s.book.enter w := by
  cases w with
  | put key value =>
    exact Book.ext (funext (read_apply_put s key value))
      (funext (lastVersion_apply_put s key value))
  | delete key =>
    exact Book.ext (funext (read_apply_delete s key)) (funext (lastVersion_apply_delete s key))

/-- A row of changes is entered in its order. -/
theorem book_foldl (s : Store) (writes : List Write) :
    (writes.foldl apply s).book = writes.foldl Book.enter s.book := by
  induction writes generalizing s with
  | nil => rfl
  | cons w writes ih => rw [List.foldl_cons, ih, book_apply, List.foldl_cons]

/-- Whether a key has another version than the one that was read. -/
def Stale (s : Store) (reads : Table String (Option Nat)) (key : String) : Prop :=
  ∃ seen, reads.get? key = some seen ∧ s.version? key ≠ seen

private theorem not_exists_stale_iff {reads : Table String (Option Nat)} :
    (¬∃ key, s.Stale reads key) ↔
      ∀ key seen, reads.get? key = some seen → s.version? key = seen := by
  simp only [Stale, not_exists, not_and, ne_eq, not_not]

/-- A key that a commit is refused for has changed since it was read. -/
theorem stale_of_conflict? {reads : Table String (Option Nat)} {key : String}
    (h : s.conflict? reads = some key) : s.Stale reads key := by
  obtain ⟨⟨k, seen⟩, hfind, rfl⟩ := Option.map_eq_some_iff.1 h
  have hdiffers := List.find?_some hfind
  exact ⟨seen, (Table.get?_eq_some_iff _ _ _).2 (List.mem_of_find?_eq_some hfind),
    by simpa using hdiffers⟩

/-- A change that is committed by itself is made. -/
theorem commit_single (s : Store) (w : Write) : s.commit [w] ∅ = .ok (s.apply w) := rfl

/-- Without reads, commits of one write each apply the writes in their order. -/
theorem foldlM_commit_single (s : Store) (writes : List Write) :
    writes.foldlM (fun s w => s.commit [w] ∅) s = .ok (writes.foldl apply s) := by
  induction writes generalizing s with
  | nil => rfl
  | cons w writes ih =>
    rw [List.foldlM_cons, commit_single]
    exact ih (s.apply w)

/-- A scan lists the records whose keys start as asked, with their keys. -/
theorem mem_scan_iff {start : String} {entry : String × Record} :
    entry ∈ s.scan start ↔ s.read entry.1 = some entry.2 ∧ startsWith start entry.1 = true := by
  rw [scan, List.mem_mergeSort, List.mem_filter, read, Table.get?_eq_some_iff]

/-- A scan lists each key once. -/
theorem nodup_scan (s : Store) (start : String) : ((s.scan start).map Prod.fst).Nodup :=
  ((List.mergeSort_perm _ _).map Prod.fst).nodup_iff.2 (Table.nodup_filter _ s.records.nodup)

/-- Keys are found in the order of their bytes. -/
theorem sorted_scan (s : Store) (start : String) :
    (s.scan start).Pairwise fun a b => Text.utf8 a.1 < Text.utf8 b.1 := by
  have hsorted : (s.scan start).Pairwise fun a b => a.1 ≤ b.1 := by
    refine (List.pairwise_mergeSort ?_ ?_ _).imp of_decide_eq_true
    · intro a b c hab hbc
      exact decide_eq_true (String.le_trans (of_decide_eq_true hab) (of_decide_eq_true hbc))
    · intro a b
      simpa using String.le_total a.1 b.1
  have hdistinct : (s.scan start).Pairwise fun a b => a.1 ≠ b.1 :=
    List.pairwise_map.1 (s.nodup_scan start)
  exact (hsorted.and hdistinct).imp fun h => Text.utf8_lt (Std.lt_of_le_of_ne h.1 h.2)

/-- What is to be seen of a store by looking at all its keys. -/
structure Surveyed (s : Store) : Prop where
  /-- The keys with a beginning are found in the order of their bytes, hence each of them once. -/
  sorted : ∀ start, (s.scan start).Pairwise fun a b => Text.utf8 a.1 < Text.utf8 b.1
  /-- They are the keys that can be read, with what they read as. -/
  mem_scan : ∀ start key record,
    (key, record) ∈ s.scan start ↔ start.toList <+: key.toList ∧ s.read key = some record
  /-- The size is the number of keys that can be read. -/
  size : ∃ live : Finset String, (∀ key, key ∈ live ↔ (s.read key).isSome = true) ∧
    s.size = live.card

/-- Scans and lengths of any store agree with what it holds. -/
theorem surveyed (s : Store) : s.Surveyed where
  sorted := s.sorted_scan
  mem_scan start key record := by
    rw [mem_scan_iff, startsWith, List.isPrefixOf_iff_prefix, and_comm]
  size := by
    refine ⟨⟨s.records.keys, s.records.nodup⟩, fun key => ?_, ?_⟩
    · exact s.records.mem_keys_iff key
    · exact (List.length_map _).symm

/-- A commit is refused when a key has another version than the one that was read, and then it
names such a key and leaves everything as it is. Otherwise it makes its changes as if each were
committed by itself, one after the other: they are entered in the book, and other keys stay as they
are. In every store the keys with a beginning are found in the order of their bytes, each once and
with what it reads as, and the size is the number of keys that can be read. -/
theorem commit_whole (u : UnreliableStore) (writes : List Write)
    (reads : Table String (Option Nat)) :
    ((∃ key, u.store.Stale reads key) → ∃ key, u.store.Stale reads key ∧
        u.commitBehind writes reads = (.error (.commitConflict key), u)) ∧
      ((¬∃ key, u.store.Stale reads key) → ∃ t,
        u.commitBehind writes reads = (.ok (), { u with store := t }) ∧
        writes.foldlM (fun s w => s.commit [w] ∅) u.store = .ok t ∧
        t.book = writes.foldl Book.enter u.store.book ∧
        ∀ key, (∀ w ∈ writes, w.key ≠ key) →
          t.read key = u.store.read key ∧ t.lastVersion key = u.store.lastVersion key) ∧
      u.store.Surveyed := by
  refine ⟨?_, ?_, u.store.surveyed⟩
  · intro hstale
    cases hconflict : u.store.conflict? reads with
    | none => exact absurd hstale (not_exists_stale_iff.2 (conflict?_eq_none_iff.1 hconflict))
    | some key =>
      refine ⟨key, stale_of_conflict? hconflict, ?_⟩
      rw [UnreliableStore.commitBehind, commit, hconflict]
  · intro hfresh
    refine ⟨writes.foldl apply u.store, ?_, foldlM_commit_single _ _, book_foldl _ _,
      fun key hkey => u.store.foldl_apply_of_ne hkey⟩
    rw [UnreliableStore.commitBehind, commit,
      conflict?_eq_none_iff.2 (not_exists_stale_iff.1 hfresh)]

/-- A store with two keys and one that has been removed. -/
def stocked : UnreliableStore :=
  ⟨[.put "job/é" [1], .put "job/z" [2], .put "gone" [3], .delete "gone"].foldl apply empty, [], 0⟩

/-- Changes of which two write the same key and one removes it in between. -/
def restocking : List Write :=
  [.put "gone" [4], .delete "gone", .put "gone" [5], .delete "job/z", .put "job/a" [6]]

/-- A commit that has read a key since changed leaves all as it was, and without that read it is
taken whole. -/
theorem commit_whole_stocked :
    (∃ key, stocked.store.Stale (.ofList [("gone", none), ("job/z", some 2)]) key ∧
        stocked.commitBehind restocking (.ofList [("gone", none), ("job/z", some 2)]) =
          (.error (.commitConflict key), stocked)) ∧
      (∃ t, stocked.commitBehind restocking (.ofList [("gone", none)]) =
          (.ok (), { stocked with store := t }) ∧
        t.read "gone" = some ⟨[5], 3⟩ ∧ t.read "job/é" = some ⟨[1], 1⟩) ∧
      ("job/é", ⟨[1], 1⟩) ∈ stocked.store.scan "job/" := by
  obtain ⟨hrefused, -, hsurveyed⟩ :=
    commit_whole stocked restocking (.ofList [("gone", none), ("job/z", some 2)])
  obtain ⟨-, htaken, -⟩ := commit_whole stocked restocking (.ofList [("gone", none)])
  have hfresh : ¬∃ key, stocked.store.Stale (.ofList [("gone", none)]) key :=
    not_exists_stale_iff.2 (conflict?_eq_none_iff.1 (by decide))
  obtain ⟨t, hcommit, -, hbook, hothers⟩ := htaken hfresh
  have hgone : t.book.shown "gone" = some ⟨[5], 3⟩ := by
    rw [hbook]
    decide
  refine ⟨hrefused ⟨"job/z", some 2, by decide, by decide⟩, ⟨t, hcommit, hgone, ?_⟩, ?_⟩
  · exact (hothers "job/é" (by decide)).1.trans (by decide)
  · exact (hsurveyed.mem_scan "job/" "job/é" ⟨[1], 1⟩).2 ⟨by decide, by decide⟩

end Store

end Flotilla
