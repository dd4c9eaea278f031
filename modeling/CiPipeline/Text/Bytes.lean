/-!
# Positions counted in UTF-8 bytes

`dropBytes?` cuts a text at a byte position. `dropBytes?_append` and `eq_append_of_dropBytes?` say
that it answers exactly at the boundaries between characters.
-/

namespace CiPipeline.Text

/-- The number of bytes of the UTF-8 form. -/
def byteCount : List Char → Nat
  | [] => 0
  | c :: text => c.utf8Size + byteCount text

/-- The text from byte `n` on, or `none` past the end and inside a character. -/
def dropBytes? : Nat → List Char → Option (List Char)
  | 0, text => some text
  | _ + 1, [] => none
  | n + 1, c :: text => if c.utf8Size ≤ n + 1 then dropBytes? (n + 1 - c.utf8Size) text else none

theorem dropBytes?_append (front rest : List Char) :
    dropBytes? (byteCount front) (front ++ rest) = some rest := by
  induction front with
  | nil => simp [byteCount, dropBytes?]
  | cons c front ih =>
    have pos := c.utf8Size_pos
    obtain ⟨n, hn⟩ : ∃ n, byteCount (c :: front) = n + 1 :=
      ⟨byteCount (c :: front) - 1, by rw [byteCount]; omega⟩
    have rest_size : n + 1 - c.utf8Size = byteCount front := by rw [← hn, byteCount]; omega
    rw [hn, List.cons_append, dropBytes?, if_pos (by rw [← hn, byteCount]; omega), rest_size, ih]

theorem eq_append_of_dropBytes? {n : Nat} {text rest : List Char}
    (h : dropBytes? n text = some rest) : ∃ front, text = front ++ rest ∧ byteCount front = n := by
  fun_induction dropBytes? n text with
  | case1 => exact ⟨[], by simpa using h, rfl⟩
  | case2 => contradiction
  | case3 n c text fits ih =>
    obtain ⟨front, rfl, size⟩ := ih h
    exact ⟨c :: front, rfl, by rw [byteCount, size]; omega⟩
  | case4 => contradiction

end CiPipeline.Text
