import CiPipeline.Node.Layout
import CiPipeline.Proofs.Decimal.Characters

/-!
# Text of scalars

A scalar is a word on one line, `scalarText`, unless it is a string with a line feed, and then its
layout depends on the level. `write_of_oneLine` and `layout_of_oneLine` say that the writer puts down
the word; `scalarText_ne_nil` and `feed_notMem_scalarText` that there always is one and that it keeps to
its line.
-/

namespace CiPipeline
open Text

namespace Node

/-- A string on one line: in quotes when it is blank or holds a colon. -/
def lineText (text : List Char) : List Char :=
  if allBlank text then ['\'', '\''] else if text.contains ':' then quotedText text else text

/-- A scalar on one line; collections have no such text. -/
def scalarText : Node → List Char
  | null => "null".toList
  | bool b => (if b then "true" else "false").toList
  | int i => Decimal.ofInt i.toInt
  | float x => floatText x
  | str s => lineText s.toList
  | list _ | map _ => []

def OneLine : Node → Prop
  | str s => '\n' ∉ s.toList
  | n => n.isScalar = true

theorem isScalar_of_oneLine {n : Node} (oneLine : n.OneLine) : n.isScalar = true := by
  cases n with
  | str s => rfl
  | _ => exact oneLine

/-! ### Words -/

theorem quotedText_ne_nil (text : List Char) : quotedText text ≠ [] := by
  simp [quotedText]

theorem feed_notMem_quotedText {text : List Char} (flat : '\n' ∉ text) : '\n' ∉ quotedText text := by
  intro member
  simp only [quotedText, List.mem_append, List.mem_cons, List.mem_flatMap] at member
  rcases member with (quote | ⟨c, found, doubled⟩) | quote
  · simp at quote
  · split at doubled
    · simp at doubled
    · exact flat (List.mem_singleton.mp doubled ▸ found)
  · simp at quote

theorem lineText_ne_nil (text : List Char) : lineText text ≠ [] := by
  unfold lineText
  split
  · simp
  next visible =>
    split
    · exact quotedText_ne_nil text
    · intro empty
      exact visible (by simp [empty])

theorem feed_notMem_lineText {text : List Char} (flat : '\n' ∉ text) : '\n' ∉ lineText text := by
  unfold lineText
  split
  · simp
  · split
    · exact feed_notMem_quotedText flat
    · exact flat

theorem floatText_ne_nil (x : Binary64) : floatText x ≠ [] := by
  unfold floatText
  split
  · simp
  · split
    · split <;> simp
    · exact Decimal.write_ne_nil _ x

theorem feed_not_numeral : ¬ Decimal.numeral '\n' := Decimal.not_numeral_of rfl (by simp)

theorem feed_notMem_floatText (x : Binary64) : '\n' ∉ floatText x := by
  unfold floatText
  split
  · simp
  · split
    · split <;> simp
    · exact fun member => feed_not_numeral (Decimal.mem_write member)

theorem scalarText_ne_nil {n : Node} (scalar : n.isScalar = true) : n.scalarText ≠ [] := by
  cases n with
  | null => simp [scalarText]
  | bool b => cases b <;> simp [scalarText]
  | int i => exact Decimal.ofInt_ne_nil _
  | float x => exact floatText_ne_nil x
  | str s => exact lineText_ne_nil _
  | list items => contradiction
  | map entries => contradiction

theorem feed_notMem_scalarText {n : Node} (oneLine : n.OneLine) : '\n' ∉ n.scalarText := by
  cases n with
  | null => simp [scalarText]
  | bool b => cases b <;> simp [scalarText]
  | int i => exact fun member => feed_not_numeral (Decimal.mem_ofInt member)
  | float x => exact feed_notMem_floatText x
  | str s => exact feed_notMem_lineText oneLine
  | list items => contradiction
  | map entries => contradiction

/-! ### What the writer does with a word -/

theorem stringText_of_flat {text : List Char} (flat : '\n' ∉ text) (level : Nat) :
    stringText text level = lineText text := by
  have single : ¬ text.contains '\n' = true := by simpa using flat
  rw [stringText, if_neg single, lineText]

theorem write_of_feed {s : String} (feed : '\n' ∈ s.toList) (out : Buffer) (level : Nat) :
    (str s).write out level = out.append (blockText s.toList level) := by
  have several : s.toList.contains '\n' = true := by simpa using feed
  rw [write, stringText, if_pos several]

theorem write_of_oneLine {n : Node} (oneLine : n.OneLine) (out : Buffer) (level : Nat) :
    n.write out level = out.append n.scalarText := by
  cases n with
  | str s => rw [write, stringText_of_flat oneLine, scalarText]
  | list items => contradiction
  | map entries => contradiction
  | _ => rw [write, scalarText]

theorem layout_of_feed {s : String} (feed : '\n' ∈ s.toList) (level : Nat) :
    (str s).layout level = blockText s.toList level := by
  rw [layout, write_of_feed feed, Buffer.toList_append]
  rfl

theorem layout_of_oneLine {n : Node} (oneLine : n.OneLine) (level : Nat) : n.layout level = n.scalarText := by
  rw [layout, write_of_oneLine oneLine, Buffer.toList_append]
  rfl

end Node
end CiPipeline
