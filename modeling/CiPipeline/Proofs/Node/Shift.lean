import CiPipeline.Proofs.Node.Sections

/-!
# Indentation as a shift

`shift` moves all lines of a text but the first to the right, where they hold anything. It goes through
a text from the front (`shift_append`), and so what an entry adds behind its indentation may be shifted
by itself. A layout some levels deeper is the layout shifted by these levels (`render_add`).
-/

namespace CiPipeline
open Text

namespace Text

/-- A line that holds anything, moved to the right by a number of levels. -/
def moveLine (levels : Nat) (line : List Char) : List Char :=
  if line.isEmpty then [] else indentation levels ++ line

/-- Moves every line but the first. -/
def shift (text : List Char) (levels : Nat) : List Char :=
  match split '\n' text with
  | [] => []
  | first :: rest => ['\n'].intercalate (first :: rest.map (moveLine levels))

/-- By how much a line is moved that begins with `text`. -/
def margin (levels : Nat) (text : List Char) : List Char :=
  if text.head?.all (· == '\n') then [] else indentation levels

/-! ### From the front of a text -/

@[simp] theorem shift_nil (levels : Nat) : shift [] levels = [] := rfl

theorem shift_cons {c : Char} (differs : c ≠ '\n') (text : List Char) (levels : Nat) :
    shift (c :: text) levels = c :: shift text levels := by
  obtain ⟨piece, pieces, pieced⟩ := List.exists_cons_of_ne_nil (split_ne_nil '\n' text)
  rw [shift, split, if_neg differs, shift, pieced]
  cases pieces <;> simp [List.intercalate]

theorem moveLine_eq {text piece : List Char} {pieces : List (List Char)} (levels : Nat)
    (pieced : split '\n' text = piece :: pieces) : moveLine levels piece = margin levels text ++ piece := by
  cases text with
  | nil =>
    obtain ⟨rfl, -⟩ := List.cons.inj pieced
    rfl
  | cons c text =>
    by_cases feed : c = '\n'
    · rw [split, if_pos feed] at pieced
      obtain ⟨rfl, -⟩ := List.cons.inj pieced
      simp [moveLine, margin, feed]
    · obtain ⟨first, rest, cut⟩ := List.exists_cons_of_ne_nil (split_ne_nil '\n' text)
      rw [split, if_neg feed, cut] at pieced
      obtain ⟨rfl, -⟩ := List.cons.inj pieced
      simp [moveLine, margin, feed]

theorem shift_feed (text : List Char) (levels : Nat) :
    shift ('\n' :: text) levels = '\n' :: (margin levels text ++ shift text levels) := by
  obtain ⟨piece, pieces, pieced⟩ := List.exists_cons_of_ne_nil (split_ne_nil '\n' text)
  rw [shift, split, if_pos rfl, shift, pieced]
  simp only [List.map_cons, moveLine_eq levels pieced]
  cases pieces <;> simp [List.intercalate]

theorem shift_of_flat {text : List Char} (flat : '\n' ∉ text) (levels : Nat) : shift text levels = text := by
  induction text with
  | nil => rfl
  | cons c text ih =>
    rw [List.mem_cons, not_or] at flat
    rw [shift_cons (Ne.symm flat.1), ih flat.2]

/-- The rest gets a margin when it begins a line. -/
theorem shift_append (text rest : List Char) (levels : Nat) :
    shift (text ++ rest) levels = shift text levels ++
      ((if text.getLast? = some '\n' then margin levels rest else []) ++ shift rest levels) := by
  induction text with
  | nil => simp
  | cons c text ih =>
    by_cases feed : c = '\n'
    · subst feed
      cases text with
      | nil => simp [shift_feed, margin]
      | cons d text =>
        have same : margin levels (d :: text ++ rest) = margin levels (d :: text) := rfl
        rw [List.cons_append, shift_feed, ih, shift_feed, same, List.getLast?_cons_cons]
        simp only [List.cons_append, List.append_assoc]
    · have last : (c :: text).getLast? = some '\n' ↔ text.getLast? = some '\n' := by
        cases text <;> simp [feed]
      rw [List.cons_append, shift_cons feed, ih, shift_cons feed]
      simp only [last, List.cons_append]

theorem shift_append_of_open {text : List Char} (isOpen : text.getLast? ≠ some '\n') (rest : List Char)
    (levels : Nat) : shift (text ++ rest) levels = shift text levels ++ shift rest levels := by
  rw [shift_append, if_neg isOpen, List.nil_append]

theorem shift_append_feed (text : List Char) (levels : Nat) :
    shift (text ++ ['\n']) levels = shift text levels ++ ['\n'] := by
  rw [shift_append, shift_feed]
  simp [margin]

theorem getLast?_shift {text : List Char} {levels : Nat} :
    (shift text levels).getLast? = some '\n' ↔ text.getLast? = some '\n' := by
  rcases text.eq_nil_or_concat with rfl | ⟨front, c, rfl⟩
  · rfl
  · rw [List.concat_eq_append]
    by_cases feed : c = '\n'
    · subst feed
      simp [shift_append_feed]
    · rw [shift_append, shift_of_flat (show '\n' ∉ [c] by simpa using Ne.symm feed), ← List.append_assoc]
      simp only [List.getLast?_concat]

theorem shift_endLine (text : List Char) (levels : Nat) :
    shift (endLine text) levels = endLine (shift text levels) := by
  unfold endLine
  simp only [getLast?_shift]
  split
  · rfl
  · exact shift_append_feed text levels

/-- A text that begins with a character on its line. -/
def BeginsLine (text : List Char) : Prop := ∃ c rest, text = c :: rest ∧ c ≠ '\n'

theorem margin_of_beginsLine {text : List Char} (begins : BeginsLine text) (levels : Nat) :
    margin levels text = indentation levels := by
  obtain ⟨c, rest, rfl, visible⟩ := begins
  simp [margin, visible]

theorem beginsLine_append {text : List Char} (begins : BeginsLine text) (rest : List Char) :
    BeginsLine (text ++ rest) := by
  obtain ⟨c, first, rfl, visible⟩ := begins
  exact ⟨c, first ++ rest, rfl, visible⟩

theorem beginsLine_indentation_append {text : List Char} (begins : BeginsLine text) (level : Nat) :
    BeginsLine (indentation level ++ text) := by
  cases level with
  | zero => simpa [indentation] using begins
  | succ level =>
    refine ⟨' ', List.replicate (2 * level + 1) ' ' ++ text, ?_, by decide⟩
    rw [indentation, Nat.mul_succ, List.replicate_succ, List.cons_append]

theorem indentation_add (level levels : Nat) :
    indentation (level + levels) = indentation levels ++ indentation level := by
  rw [indentation, indentation, indentation, List.replicate_append_replicate, Nat.mul_add, Nat.add_comm]

theorem shift_indented {text : List Char} (begins : BeginsLine text) (level levels : Nat) :
    margin levels (indentation level ++ text) ++ shift (indentation level ++ text) levels =
      indentation (level + levels) ++ shift text levels := by
  have isOpen : (indentation level).getLast? ≠ some '\n' := fun last =>
    Node.feed_notMem_indentation level (List.mem_of_getLast? last)
  rw [margin_of_beginsLine (beginsLine_indentation_append begins level), shift_append_of_open isOpen,
    shift_of_flat (Node.feed_notMem_indentation level), indentation_add, List.append_assoc]

theorem shift_line {text : List Char} (begins : BeginsLine text) (level levels : Nat) :
    shift ('\n' :: (indentation level ++ text)) levels =
      '\n' :: (indentation (level + levels) ++ shift text levels) := by
  rw [shift_feed, shift_indented begins]

theorem shift_unlines {lines : List (List Char)} (filled : ∀ line ∈ lines, BeginsLine line ∧ '\n' ∉ line)
    (level levels : Nat) : shift ('\n' :: unlines (lines.map (indentation level ++ ·))) levels =
      '\n' :: unlines (lines.map (indentation (level + levels) ++ ·)) := by
  induction lines with
  | nil => rfl
  | cons line lines ih =>
    obtain ⟨⟨begins, flat⟩, others⟩ := List.forall_mem_cons.mp filled
    obtain ⟨c, rest, nonempty, -⟩ := id begins
    have isOpen : (('\n' :: indentation level) ++ line).getLast? ≠ some '\n' :=
      getLast?_append_word (by simp [nonempty]) flat _
    rw [List.map_cons, unlines_cons, List.append_assoc, ← List.append_assoc, ← List.cons_append,
      ← List.cons_append, shift_append_of_open isOpen, ih others, List.cons_append, shift_line begins,
      shift_of_flat flat, List.map_cons, unlines_cons]
    simp only [List.cons_append, List.append_assoc]

end Text

namespace Node

/-! ### Entries one after another -/

/-- Texts of entries, each on a line of its own. -/
def addEntries (out : Buffer) (level : Nat) (texts : List (List Char)) : Buffer :=
  texts.foldl (fun out text => (beginEntry out level).append text) out

/-- What an item adds behind its indentation. -/
def itemText (level : Nat) (item : Node) : List Char :=
  '-' :: ' ' ::
    if item.isBlock then firstEntryCut (item.layout (level + 1)) (level + 1) else item.layout (level + 1)

theorem writeItems_singleton (item : Node) (out : Buffer) (level : Nat) :
    writeItems out level [item] = (beginEntry out level).append (itemText level item) := by
  simp only [writeItems, itemText]
  cases block : item.isBlock with
  | true => simp [← Buffer.toList_inj, layout]
  | false =>
    simp only [Bool.false_eq_true, if_false, write_of_inline block]
    simp [← Buffer.toList_inj]

theorem writeItems_eq_addEntries (items : List Node) (out : Buffer) (level : Nat) :
    writeItems out level items = addEntries out level (items.map (itemText level)) := by
  induction items generalizing out with
  | nil => rfl
  | cons item items ih =>
    rw [writeItems_cons, writeItems_singleton, ih]
    rfl

theorem writeEntries_eq_addEntries {entries : List (Node × Node)}
    (scalars : ∀ entry ∈ entries, entry.1.isScalar = true) (out : Buffer) (level : Nat) :
    writeEntries out level entries = addEntries out level (entries.map (entryText level)) := by
  induction entries generalizing out with
  | nil => rfl
  | cons entry entries ih =>
    obtain ⟨scalar, scalars⟩ := List.forall_mem_cons.mp scalars
    rw [writeEntries_cons, writeEntries_singleton scalar, ih scalars]
    rfl

theorem shift_addEntries {texts : List (List Char)} (begin : ∀ text ∈ texts, BeginsLine text)
    {out moved : Buffer} {levels : Nat} (shifted : moved.toList = shift out.toList levels) (level : Nat) :
    (addEntries moved (level + levels) (texts.map (shift · levels))).toList =
      shift (addEntries out level texts).toList levels := by
  induction texts generalizing out moved with
  | nil => exact shifted
  | cons text texts ih =>
    obtain ⟨begins, others⟩ := List.forall_mem_cons.mp begin
    refine ih others ?_
    obtain ⟨front, ended⟩ := endLine_eq_concat out.toList
    have last : (endLine out.toList).getLast? = some '\n' := by
      rw [ended]
      exact List.getLast?_concat
    rw [Buffer.toList_append, Buffer.toList_append, toList_beginEntry, toList_beginEntry, shifted,
      ← shift_endLine, List.append_assoc, List.append_assoc, shift_append, if_pos last, shift_indented begins]

theorem addEntries_eq_append (texts : List (List Char)) (out : Buffer) (level : Nat) :
    ∃ more, (addEntries out level texts).toList = out.toList ++ more := by
  induction texts generalizing out with
  | nil => exact ⟨[], by simp [addEntries]⟩
  | cons text texts ih =>
    obtain ⟨more, grown⟩ := ih ((beginEntry out level).append text)
    obtain ⟨feed, closed⟩ := prefix_endLine out.toList
    refine ⟨feed ++ indentation level ++ text ++ more, ?_⟩
    rw [addEntries, List.foldl_cons, ← addEntries, grown, Buffer.toList_append, toList_beginEntry, ← closed]
    simp only [List.append_assoc]

/-- The first entry opens the line that the layout of a collection begins with. -/
theorem addEntries_empty {text : List Char} {texts : List (List Char)} (begins : BeginsLine text)
    (level : Nat) : ∃ rest, BeginsLine rest ∧
      (addEntries .empty level (text :: texts)).toList = '\n' :: (indentation level ++ rest) := by
  obtain ⟨more, grown⟩ := addEntries_eq_append texts ((beginEntry .empty level).append text) level
  refine ⟨text ++ more, beginsLine_append begins more, ?_⟩
  rw [addEntries, List.foldl_cons, ← addEntries, grown, Buffer.toList_append, toList_beginEntry]
  simp

theorem beginsLine_itemText (level : Nat) (item : Node) : BeginsLine (itemText level item) :=
  ⟨'-', _, rfl, by decide⟩

theorem beginsLine_entryText {key : Node} (oneLine : key.OneLine) (value : Node) (level : Nat) :
    BeginsLine (entryText level (key, value)) := by
  obtain ⟨c, word, text⟩ := List.exists_cons_of_ne_nil (scalarText_ne_nil (isScalar_of_oneLine oneLine))
  have visible : c ≠ '\n' := fun feed =>
    feed_notMem_scalarText oneLine (text ▸ feed ▸ List.mem_cons_self)
  rw [entryText, layout_of_oneLine oneLine, text]
  exact ⟨c, _, rfl, visible⟩

theorem layout_list {items : List Node} (nonempty : items ≠ []) (level : Nat) :
    (list items).layout level = (addEntries .empty level (items.map (itemText level))).toList := by
  rw [layout, write, if_neg (by simpa using nonempty), writeItems_eq_addEntries]

theorem layout_map {entries : List (Node × Node)} (nonempty : entries ≠ [])
    (keys : ∀ entry ∈ entries, entry.1.OneLine) (level : Nat) :
    (map entries).layout level = (addEntries .empty level (entries.map (entryText level))).toList := by
  rw [layout, write, if_neg (by simpa using nonempty),
    writeEntries_eq_addEntries fun entry member => isScalar_of_oneLine (keys entry member)]

theorem layout_of_isBlock {n : Node} (keys : n.LineKeys) (block : n.isBlock = true) (level : Nat) :
    ∃ rest, BeginsLine rest ∧ n.layout level = '\n' :: (indentation level ++ rest) := by
  cases keys with
  | scalar scalar _ =>
    rw [isBlock_of_isScalar scalar] at block
    cases block
  | @list items _ =>
    obtain ⟨item, items, rfl⟩ :=
      List.exists_cons_of_ne_nil (l := items) (by simpa [isBlock] using block)
    rw [layout_list (List.cons_ne_nil _ _)]
    exact addEntries_empty (beginsLine_itemText level item) level
  | @map entries keys _ =>
    obtain ⟨⟨key, value⟩, entries, rfl⟩ :=
      List.exists_cons_of_ne_nil (l := entries) (by simpa [isBlock] using block)
    rw [layout_map (List.cons_ne_nil _ _) keys]
    exact addEntries_empty (beginsLine_entryText (keys _ List.mem_cons_self) value level) level

theorem dropBytes?_line (level : Nat) (rest : List Char) :
    dropBytes? (1 + 2 * level) ('\n' :: (indentation level ++ rest)) = some rest := by
  rw [← byteCount_indentation, ← List.cons_append, dropBytes?_append]

theorem firstEntryCut_line (level : Nat) (rest : List Char) :
    firstEntryCut ('\n' :: (indentation level ++ rest)) level = rest := by
  rw [firstEntryCut, dropBytes?_line]
  rfl

/-! ### Layouts some levels deeper -/

/-- A layout some levels deeper is the layout moved to the right. -/
def Shifts (n : Node) : Prop := ∀ level levels, n.layout (level + levels) = shift (n.layout level) levels

theorem shifts_of_flat {n : Node} {word : List Char} (flat : '\n' ∉ word)
    (laid : ∀ level, n.layout level = word) : n.Shifts := by
  intro level levels
  rw [laid, laid, shift_of_flat flat]

theorem shift_blockText (text : List Char) (level levels : Nat) :
    shift (blockText text level) levels = blockText text (level + levels) := by
  have filled : ∀ piece ∈ (split '\n' text).map ([' ', ' '] ++ ·), BeginsLine piece ∧ '\n' ∉ piece := by
    intro piece member
    have flat := feed_notMem_map (fun _ => not_mem_of_mem_split) (by simp) piece member
    obtain ⟨source, -, rfl⟩ := List.mem_map.mp member
    exact ⟨⟨' ', _, rfl, by decide⟩, flat⟩
  rw [blockText_eq, blockText_eq, literalLines, hang_cons, hang_cons, unlines_cons, unlines_cons,
    List.nil_append, List.singleton_append, List.singleton_append, shift_cons (by decide), shift_unlines filled]

theorem shifts_of_isScalar {n : Node} (scalar : n.isScalar = true) : n.Shifts := by
  by_cases oneLine : n.OneLine
  · exact shifts_of_flat (feed_notMem_scalarText oneLine) (layout_of_oneLine oneLine)
  · cases n with
    | str s =>
      intro level levels
      simp only [layout_of_feed (Classical.not_not.mp oneLine), shift_blockText]
    | _ => contradiction

theorem shift_itemText {item : Node} (keys : item.LineKeys) (shifts : item.Shifts) (level levels : Nat) :
    itemText (level + levels) item = shift (itemText level item) levels := by
  have deeper : item.layout (level + levels + 1) = shift (item.layout (level + 1)) levels := by
    rw [← shifts, Nat.add_right_comm]
  rw [itemText, itemText, shift_cons (by decide), shift_cons (by decide), deeper]
  congr 2
  cases block : item.isBlock with
  | true =>
    obtain ⟨rest, begins, laid⟩ := layout_of_isBlock keys block (level + 1)
    rw [if_pos rfl, if_pos rfl, laid, shift_line begins, firstEntryCut_line, Nat.add_right_comm,
      firstEntryCut_line]
  | false => rfl

theorem shift_entryText {key value : Node} (oneLine : key.OneLine) (shifts : value.Shifts) (level levels : Nat) :
    entryText (level + levels) (key, value) = shift (entryText level (key, value)) levels := by
  have deeper : value.layout (level + levels + 1) = shift (value.layout (level + 1)) levels := by
    rw [← shifts, Nat.add_right_comm]
  have word : (key.scalarText).getLast? ≠ some '\n' := fun last =>
    feed_notMem_scalarText oneLine (List.mem_of_getLast? last)
  simp only [entryText, layout_of_oneLine oneLine]
  rw [shift_append_of_open word, shift_of_flat (feed_notMem_scalarText oneLine), shift_cons (by decide),
    deeper]
  cases value.isBlock with
  | true => rfl
  | false => rw [if_neg Bool.false_ne_true, if_neg Bool.false_ne_true, shift_cons (by decide)]

theorem shifts_list {items : List Node} (keys : ∀ item ∈ items, item.LineKeys)
    (shifts : ∀ item ∈ items, item.Shifts) : (list items).Shifts := by
  by_cases nonempty : items = []
  · subst nonempty
    exact shifts_of_flat (show '\n' ∉ ['[', ']'] by simp) fun level => by simp [layout, write]
  · intro level levels
    have begin : ∀ text ∈ items.map (itemText level), BeginsLine text := by
      intro text member
      obtain ⟨item, -, rfl⟩ := List.mem_map.mp member
      exact beginsLine_itemText level item
    have texts : items.map (itemText (level + levels)) =
        (items.map (itemText level)).map (shift · levels) := by
      rw [List.map_map]
      exact List.map_congr_left fun item member =>
        shift_itemText (keys item member) (shifts item member) level levels
    rw [layout_list nonempty, layout_list nonempty, texts]
    exact shift_addEntries begin rfl level

theorem shifts_map {entries : List (Node × Node)} (keys : ∀ entry ∈ entries, entry.1.OneLine)
    (shifts : ∀ entry ∈ entries, entry.2.Shifts) : (map entries).Shifts := by
  by_cases nonempty : entries = []
  · subst nonempty
    exact shifts_of_flat (show '\n' ∉ ['\x7b', '\x7d'] by simp) fun level => by simp [layout, write]
  · intro level levels
    have begin : ∀ text ∈ entries.map (entryText level), BeginsLine text := by
      intro text member
      obtain ⟨⟨key, value⟩, found, rfl⟩ := List.mem_map.mp member
      exact beginsLine_entryText (keys _ found) value level
    have texts : entries.map (entryText (level + levels)) =
        (entries.map (entryText level)).map (shift · levels) := by
      rw [List.map_map]
      exact List.map_congr_left fun entry member =>
        shift_entryText (keys entry member) (shifts entry member) level levels
    rw [layout_map nonempty keys, layout_map nonempty keys, texts]
    exact shift_addEntries begin rfl level

theorem shifts_of_lineKeys {n : Node} (keys : n.LineKeys) : n.Shifts := by
  induction keys with
  | scalar scalar _ => exact shifts_of_isScalar scalar
  | list each shifts => exact shifts_list each shifts
  | map oneLine _ shifts => exact shifts_map oneLine shifts

/-- Levels of indentation only move the lines of a layout behind its first. -/
theorem render_add {n : Node} (keys : n.LineKeys) (level levels : Nat) :
    n.render (level + levels) = String.ofList (shift (n.render level).toList levels) := by
  rw [toList_render, ← shifts_of_lineKeys keys level levels, render]

/-- Literals with empty lines and margins of their own, in items, in values and at the end. -/
def nestedLiterals : Node :=
  map [(str "a", list [str " x\n\ny", list [map [(null, str ":\n"), (int 3, map [])]]]),
    (str "- b", str "\n ")]

theorem render_nestedLiterals : nestedLiterals.LineKeys ∧ nestedLiterals.render (0 + 1) =
    "\n  a:\n    - |\n         x\n        \n        y\n    - - null: |\n            :\n            \n" ++
      "        3: \x7b\x7d\n  - b: |\n      \n       \n" := by
  have keys : nestedLiterals.LineKeys := by
    simp [LineKeys, nestedLiterals, every_map_iff, every_list_iff, every_scalar_iff, OneLine, isScalar,
      isCollection]
  exact ⟨keys, (render_add keys 0 1).trans (by decide)⟩

end Node
end CiPipeline
