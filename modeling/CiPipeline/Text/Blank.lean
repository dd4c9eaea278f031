/-!
# Blank characters

The characters with the Unicode property White_Space, and the two questions this library asks
about them: is a text blank, and what is left of it when its blank end is cut off.
`isBlank_of_isWhitespace` places the ASCII class of the standard library inside the table.
-/

namespace CiPipeline.Text

/-- First and last code points of the ranges of White_Space, in ascending order. -/
def blankRanges : List (Nat × Nat) :=
  [(0x0009, 0x000D), (0x0020, 0x0020), (0x0085, 0x0085), (0x00A0, 0x00A0), (0x1680, 0x1680),
    (0x2000, 0x200A), (0x2028, 0x2029), (0x202F, 0x202F), (0x205F, 0x205F), (0x3000, 0x3000)]

def isBlank (c : Char) : Bool :=
  blankRanges.any fun range => range.1 ≤ c.toNat && c.toNat ≤ range.2

/-- A text with no character that could be seen; the empty text is one. -/
def allBlank (text : List Char) : Bool :=
  text.all isBlank

def trimEnd (text : List Char) : List Char :=
  (text.reverse.dropWhile isBlank).reverse

theorem isBlank_of_isWhitespace {c : Char} (h : c.isWhitespace = true) : isBlank c = true := by
  simp only [Char.isWhitespace, Bool.or_eq_true, decide_eq_true_eq] at h
  rcases h with ((rfl | rfl) | rfl) | rfl <;> decide

@[simp] theorem allBlank_nil : allBlank [] = true := rfl

@[simp] theorem allBlank_cons (c : Char) (text : List Char) :
    allBlank (c :: text) = (isBlank c && allBlank text) := rfl

end CiPipeline.Text
