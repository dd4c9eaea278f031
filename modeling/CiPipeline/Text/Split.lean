/-!
# Pieces of a text

`split` cuts a text at a separator. `split_ne_nil` and `intercalate_split` say that there is always
a piece and that nothing is lost; `not_mem_of_mem_split` that no piece holds the separator.
-/

namespace CiPipeline.Text

def split (separator : Char) : List Char → List (List Char)
  | [] => [[]]
  | c :: text =>
    if c = separator then [] :: split separator text
    else match split separator text with
      | piece :: pieces => (c :: piece) :: pieces
      | [] => [[c]]

theorem split_ne_nil (separator : Char) (text : List Char) : split separator text ≠ [] := by
  cases text with
  | nil => simp [split]
  | cons c text =>
    rw [split]
    split
    · simp
    · split <;> simp

theorem intercalate_split (separator : Char) (text : List Char) :
    [separator].intercalate (split separator text) = text := by
  induction text with
  | nil => simp [split, List.intercalate]
  | cons c text ih =>
    rw [split]
    split
    next same =>
      cases h : split separator text with
      | nil => exact absurd h (split_ne_nil separator text)
      | cons piece pieces => rw [h] at ih; simp [List.intercalate, same] at ih ⊢; exact ih
    next =>
      cases h : split separator text with
      | nil => exact absurd h (split_ne_nil separator text)
      | cons piece pieces =>
        rw [h] at ih
        cases pieces <;> simp [List.intercalate] at ih ⊢ <;> exact ih

theorem not_mem_of_mem_split {separator : Char} {text piece : List Char}
    (h : piece ∈ split separator text) : separator ∉ piece := by
  induction text generalizing piece with
  | nil => simp [split] at h; simp [h]
  | cons c text ih =>
    rw [split] at h
    split at h
    next =>
      rcases List.mem_cons.1 h with rfl | h
      · simp
      · exact ih h
    next differs =>
      cases hs : split separator text with
      | nil => exact absurd hs (split_ne_nil separator text)
      | cons first rest =>
        rw [hs] at h ih
        rcases List.mem_cons.1 h with rfl | h
        · simp only [List.mem_cons, not_or]
          exact ⟨Ne.symm differs, ih (List.mem_cons_self ..)⟩
        · exact ih (List.mem_cons_of_mem _ h)

end CiPipeline.Text
