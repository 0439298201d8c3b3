/-!
# Cutting text at a separator

`split` cuts at every separator and `cut` at the first one. Splitting loses nothing: writing the
pieces again with the separator between them gives the text back (`join_split`), and no piece
holds a separator (`not_mem_of_mem_split`).
-/

namespace Flotilla.Text

/-- The pieces between the separators; a text without one is a single piece. -/
def split (sep : Char) : List Char → List (List Char)
  | [] => [[]]
  | c :: cs =>
    if c = sep then [] :: split sep cs
    else match split sep cs with
      | [] => [[c]]
      | piece :: pieces => (c :: piece) :: pieces

/-- The text before the first separator and the text after it. -/
def cut (sep : Char) : List Char → Option (List Char × List Char)
  | [] => none
  | c :: cs => if c = sep then some ([], cs) else (cut sep cs).map fun p => (c :: p.1, p.2)

/-- Pieces written one after the other with a separator between each two. -/
def join (sep : Char) : List (List Char) → List Char
  | [] => []
  | [piece] => piece
  | piece :: pieces => piece ++ sep :: join sep pieces

/-- Every text has a piece. -/
theorem split_ne_nil (sep : Char) (s : List Char) : split sep s ≠ [] := by
  cases s with
  | nil => simp [split]
  | cons c cs =>
    rw [split]
    split
    · simp
    · split <;> simp

/-- Splitting loses nothing. -/
theorem join_split (sep : Char) (s : List Char) : join sep (split sep s) = s := by
  induction s with
  | nil => rfl
  | cons c cs ih =>
    rw [split]
    split
    · next h =>
      cases hs : split sep cs with
      | nil => exact absurd hs (split_ne_nil sep cs)
      | cons p ps => rw [join, ← hs, ih, h]; simp; simp
    · split
      · next hs => exact absurd hs (split_ne_nil sep cs)
      · next p ps hs =>
        rw [hs] at ih
        cases ps with
        | nil => simp only [join] at ih ⊢; rw [ih]
        | cons q qs => simp only [join, List.cons_append] at ih ⊢; rw [ih]

/-- A piece holds no separator. -/
theorem not_mem_of_mem_split {sep : Char} {s piece : List Char} (h : piece ∈ split sep s) :
    sep ∉ piece := by
  induction s generalizing piece with
  | nil => simp only [split, List.mem_singleton] at h; simp [h]
  | cons c cs ih =>
    rw [split] at h
    split at h
    · rcases List.mem_cons.1 h with rfl | h
      · simp
      · exact ih h
    · next hc =>
      split at h
      · next hs => exact absurd hs (split_ne_nil sep cs)
      · next p ps hs =>
        rcases List.mem_cons.1 h with rfl | h
        · have hp : p ∈ split sep cs := by simp [hs]
          simp [Ne.symm hc, ih hp]
        · exact ih (by simp [hs, h])

end Flotilla.Text
