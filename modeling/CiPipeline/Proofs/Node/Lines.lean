import CiPipeline.Proofs.Node.Every
import CiPipeline.Proofs.Node.Scalar
import CiPipeline.Proofs.Text.Lines

/-!
# The lines of a document

`lines` prints a node as a list of lines, each collection from the lines of its parts, without a
buffer and without a level. `prints_of_lineKeys` says that the writer puts down these lines, at any
level and behind any text; `document_eq_lines` that they are the document.
-/

namespace CiPipeline
open Text

namespace Node

def literalLines (text : List Char) : List (List Char) :=
  ['|'] :: (split '\n' text).map ([' ', ' '] ++ ·)

/-- The lines of a value behind its key: a collection with entries goes under the key. -/
def keyed (key : List Char) (block : Bool) (lines : List (List Char)) : List (List Char) :=
  if block then (key ++ [':']) :: lines.map ([' ', ' '] ++ ·)
  else hang (key ++ [':', ' ']) [' ', ' '] lines

mutual

def lines : Node → List (List Char)
  | str s => if s.toList.contains '\n' then literalLines s.toList else [lineText s.toList]
  | list items => if items.isEmpty then [['[', ']']] else itemLines items
  | map entries => if entries.isEmpty then [['\x7b', '\x7d']] else entryLines entries
  | n => [n.scalarText]

def itemLines : List Node → List (List Char)
  | [] => []
  | item :: items => hang ['-', ' '] [' ', ' '] item.lines ++ itemLines items

def entryLines : List (Node × Node) → List (List Char)
  | [] => []
  | (key, value) :: entries =>
    keyed key.scalarText value.isBlock value.lines ++ entryLines entries

end

/-- Every key of the tree is a scalar that fits on a line. -/
def LineKeys (n : Node) : Prop := n.Every OneLine fun _ => True

theorem lines_of_oneLine {n : Node} (oneLine : n.OneLine) : n.lines = [n.scalarText] := by
  cases n with
  | str s =>
    have single : ¬ s.toList.contains '\n' = true := by simpa [OneLine] using oneLine
    rw [lines, if_neg single, scalarText]
  | list items => contradiction
  | map entries => contradiction
  | _ => rw [lines] <;> simp

theorem lines_of_feed {s : String} (feed : '\n' ∈ s.toList) :
    (str s).lines = literalLines s.toList := by
  have several : s.toList.contains '\n' = true := by simpa using feed
  rw [lines, if_pos several]

theorem lines_list {items : List Node} (nonempty : items ≠ []) :
    (list items).lines = itemLines items := by
  rw [lines, if_neg (by simpa using nonempty)]

theorem lines_map {entries : List (Node × Node)} (nonempty : entries ≠ []) :
    (map entries).lines = entryLines entries := by
  rw [lines, if_neg (by simpa using nonempty)]

theorem itemLines_eq_flatMap (items : List Node) :
    itemLines items = items.flatMap fun item => hang ['-', ' '] [' ', ' '] item.lines := by
  induction items with
  | nil => rfl
  | cons item items ih => rw [itemLines, ih, List.flatMap_cons]

theorem entryLines_eq_flatMap (entries : List (Node × Node)) :
    entryLines entries =
      entries.flatMap fun entry => keyed entry.1.scalarText entry.2.isBlock entry.2.lines := by
  induction entries with
  | nil => rfl
  | cons entry entries ih => rw [entryLines, ih, List.flatMap_cons]

theorem keyed_block (key : List Char) (lines : List (List Char)) :
    keyed key true lines = (key ++ [':']) :: lines.map ([' ', ' '] ++ ·) := rfl

theorem keyed_inline (key : List Char) (lines : List (List Char)) :
    keyed key false lines = hang (key ++ [':', ' ']) [' ', ' '] lines := rfl

theorem keyed_ne_nil (key : List Char) (block : Bool) {lines : List (List Char)}
    (nonempty : lines ≠ []) : keyed key block lines ≠ [] := by
  unfold keyed
  split
  · simp
  · exact fun empty => nonempty (hang_eq_nil_iff.mp empty)

theorem lines_ne_nil : (n : Node) → n.lines ≠ []
  | null | bool _ | int _ | float _ => by simp [lines]
  | str s => by
    rw [lines]
    split <;> simp [literalLines]
  | list [] | map [] => by simp [lines]
  | list (item :: items) => by
    have first := lines_ne_nil item
    simp [lines_list, itemLines, hang_eq_nil_iff, first]
  | map ((key, value) :: entries) => by
    have first := keyed_ne_nil key.scalarText value.isBlock (lines_ne_nil value)
    simp [lines_map, entryLines, first]

/-! ### What the writer puts down -/

/-- Behind any text and at any level the writer puts down the lines of the node: a collection with
entries on lines of its own, all else from where the text ends. -/
def Prints (n : Node) : Prop :=
  ∀ (out : Buffer) (level : Nat), endLine (n.write out level).toList =
    if n.isBlock then endLine out.toList ++ unlines (n.lines.map (indentation level ++ ·))
    else out.toList ++ unlines (hang [] (indentation level) n.lines)

theorem indentation_succ (level : Nat) : indentation (level + 1) = indentation level ++ [' ', ' '] := by
  rw [indentation, Nat.mul_succ, ← List.replicate_append_replicate, indentation]
  rfl

theorem toList_beginEntry (out : Buffer) (level : Nat) :
    (beginEntry out level).toList = endLine out.toList ++ indentation level := by
  rw [beginEntry, Buffer.toList_append, endLine]
  by_cases ends : out.toList.getLast? = some '\n'
  · rw [if_pos ((Buffer.endsLine_iff out).mpr ends), if_pos ends]
  · rw [if_neg fun found => ends ((Buffer.endsLine_iff out).mp found), if_neg ends, Buffer.toList_push]

theorem blockText_eq (text : List Char) (level : Nat) :
    blockText text level = unlines (hang [] (indentation level) (literalLines text)) := by
  have moved : ∀ pieces : List (List Char),
      pieces.flatMap (fun line => '\n' :: indentation (level + 1) ++ line) ++ ['\n'] =
        '\n' :: unlines (pieces.map (indentation (level + 1) ++ ·)) := by
    intro pieces
    induction pieces with
    | nil => rfl
    | cons piece pieces ih =>
      rw [List.flatMap_cons, List.append_assoc, ih, List.map_cons, unlines_cons]
      simp
  rw [blockText, List.cons_append, moved]
  simp [literalLines, indentation_succ, Function.comp_def]

theorem prints_of_word {n : Node} {word : List Char} (inline : n.isBlock = false)
    (written : ∀ out level, n.write out level = out.append word) (printed : n.lines = [word])
    (nonempty : word ≠ []) (flat : '\n' ∉ word) : n.Prints := by
  intro out level
  rw [inline, written, printed, Buffer.toList_append, endLine_append_word nonempty flat]
  simp

theorem prints_of_oneLine {n : Node} (oneLine : n.OneLine) : n.Prints := by
  have scalar := isScalar_of_oneLine oneLine
  exact prints_of_word (isBlock_of_isScalar scalar) (write_of_oneLine oneLine)
    (lines_of_oneLine oneLine) (scalarText_ne_nil scalar) (feed_notMem_scalarText oneLine)

theorem prints_list_nil : (list []).Prints := by
  have written : ∀ out level, (list []).write out level = out.append ['[', ']'] := fun _ _ => by
    simp [write]
  exact prints_of_word rfl written (by simp [lines]) (by simp) (by simp)

theorem prints_map_nil : (map []).Prints := by
  have written : ∀ out level, (map []).write out level = out.append ['\x7b', '\x7d'] := fun _ _ => by
    simp [write]
  exact prints_of_word rfl written (by simp [lines]) (by simp) (by simp)

theorem prints_of_feed {s : String} (feed : '\n' ∈ s.toList) : (str s).Prints := by
  intro out level
  have nonempty : hang [] (indentation level) (literalLines s.toList) ≠ [] := by simp [literalLines]
  rw [write_of_feed feed, lines_of_feed feed, Buffer.toList_append, blockText_eq,
    endLine_append_unlines nonempty]
  rfl

theorem prints_of_isScalar {n : Node} (scalar : n.isScalar = true) : n.Prints := by
  by_cases oneLine : n.OneLine
  · exact prints_of_oneLine oneLine
  · cases n with
    | str s => exact prints_of_feed (Classical.not_not.mp oneLine)
    | _ => contradiction

/-! ### Items and entries -/

theorem byteCount_indentation (level : Nat) : byteCount ('\n' :: indentation level) = 1 + 2 * level := by
  have spaces : ∀ count, byteCount (List.replicate count ' ') = count := by
    intro count
    induction count with
    | zero => rfl
    | succ count ih =>
      rw [List.replicate_succ, byteCount, ih, show ' '.utf8Size = 1 from rfl]
      omega
  rw [byteCount, indentation, spaces, show '\n'.utf8Size = 1 from rfl]

/-- What is cut from a collection laid out apart is its first line break and indentation, so its
lines begin where `out` ends. -/
theorem endLine_append_firstEntryCut {item : Node} (prints : item.Prints) (block : item.isBlock = true)
    {out : Buffer} (unended : out.toList.getLast? ≠ some '\n') (level : Nat) :
    endLine (out.append (firstEntryCut (item.write .empty level).toList level)).toList =
      out.toList ++ unlines (hang [] (indentation level) item.lines) := by
  have apart := prints .empty level
  have nonempty : hang [] (indentation level) item.lines ≠ [] :=
    fun empty => lines_ne_nil item (hang_eq_nil_iff.mp empty)
  obtain ⟨body, same⟩ := unlines_eq_concat nonempty
  rw [if_pos block, ← hang_self, unlines_hang (lines_ne_nil item), Buffer.toList_empty, endLine_nil, same,
    ← List.append_assoc, ← List.append_assoc] at apart
  obtain ⟨rest, text, ended⟩ := endLine_cut apart unended
  have cut : firstEntryCut (item.write .empty level).toList level = rest := by
    rw [firstEntryCut, text, ← byteCount_indentation, List.singleton_append, dropBytes?_append]
    rfl
  rw [cut, Buffer.toList_append, ended, same, List.append_assoc]

/-- The lines of a part, begun behind `first` on a line of the level. -/
theorem unlines_map_hang {part : List (List Char)} (nonempty : part ≠ []) (text first : List Char)
    (level : Nat) :
    text ++ indentation level ++ first ++ unlines (hang [] (indentation (level + 1)) part) =
      text ++ unlines ((hang first [' ', ' '] part).map (indentation level ++ ·)) := by
  rw [map_append_hang, ← indentation_succ, unlines_hang nonempty (indentation level ++ first)]
  simp only [List.append_assoc]

theorem prints_items {items : List Node} (each : ∀ item ∈ items, item.Prints) (out : Buffer)
    (level : Nat) : endLine (writeItems out level items).toList =
      endLine out.toList ++ unlines ((itemLines items).map (indentation level ++ ·)) := by
  induction items generalizing out with
  | nil => simp [writeItems, itemLines]
  | cons item items ih =>
    have prints := each item List.mem_cons_self
    have dash : ((beginEntry out level).append ['-', ' ']).toList =
        endLine out.toList ++ indentation level ++ ['-', ' '] := by
      rw [Buffer.toList_append, toList_beginEntry]
    rw [writeItems, ih fun other member => each other (List.mem_cons_of_mem _ member), itemLines,
      List.map_append, unlines_append, ← List.append_assoc]
    congr 1
    rw [← unlines_map_hang (lines_ne_nil item), ← dash]
    cases block : item.isBlock with
    | true => exact endLine_append_firstEntryCut prints block (by simp [dash]) (level + 1)
    | false =>
      have written := prints ((beginEntry out level).append ['-', ' ']) (level + 1)
      rw [block] at written
      exact written

theorem prints_entries {entries : List (Node × Node)} (keys : ∀ entry ∈ entries, entry.1.OneLine)
    (values : ∀ entry ∈ entries, entry.2.Prints) (out : Buffer) (level : Nat) :
    endLine (writeEntries out level entries).toList =
      endLine out.toList ++ unlines ((entryLines entries).map (indentation level ++ ·)) := by
  induction entries generalizing out with
  | nil => simp [writeEntries, entryLines]
  | cons entry entries ih =>
    obtain ⟨key, value⟩ := entry
    have prints := values (key, value) List.mem_cons_self
    have header : ((key.write (beginEntry out level) (level + 1)).push ':').toList =
        endLine out.toList ++ indentation level ++ (key.scalarText ++ [':']) := by
      rw [write_of_oneLine (keys (key, value) List.mem_cons_self), Buffer.toList_push,
        Buffer.toList_append, toList_beginEntry, List.append_assoc]
    rw [writeEntries, ih (fun other member => keys other (List.mem_cons_of_mem _ member))
      fun other member => values other (List.mem_cons_of_mem _ member), entryLines,
      List.map_append, unlines_append, ← List.append_assoc]
    congr 1
    cases block : value.isBlock with
    | true =>
      have written := prints ((key.write (beginEntry out level) (level + 1)).push ':') (level + 1)
      rw [if_pos block, header, ← List.append_assoc, endLine_append_word (by simp) (by simp)] at written
      simpa [keyed_block, indentation_succ, Function.comp_def] using written
    | false =>
      have written := prints (((key.write (beginEntry out level) (level + 1)).push ':').push ' ') (level + 1)
      rw [block, if_neg Bool.false_ne_true, Buffer.toList_push, header] at written
      have first : key.scalarText ++ [':', ' '] = key.scalarText ++ [':'] ++ [' '] := by simp
      rw [keyed_inline, ← unlines_map_hang (lines_ne_nil value), first,
        ← List.append_assoc (endLine out.toList ++ indentation level)]
      exact written

theorem prints_list {items : List Node} (each : ∀ item ∈ items, item.Prints) : (list items).Prints := by
  by_cases nonempty : items = []
  · subst nonempty
    exact prints_list_nil
  · intro out level
    have some : ¬ items.isEmpty = true := by simpa using nonempty
    rw [write, if_neg some, lines_list nonempty, prints_items each, isBlock, if_pos (by simpa using nonempty)]

theorem prints_map {entries : List (Node × Node)} (keys : ∀ entry ∈ entries, entry.1.OneLine)
    (values : ∀ entry ∈ entries, entry.2.Prints) : (map entries).Prints := by
  by_cases nonempty : entries = []
  · subst nonempty
    exact prints_map_nil
  · intro out level
    have some : ¬ entries.isEmpty = true := by simpa using nonempty
    rw [write, if_neg some, lines_map nonempty, prints_entries keys values, isBlock,
      if_pos (by simpa using nonempty)]

theorem prints_of_lineKeys {n : Node} (keys : n.LineKeys) : n.Prints := by
  induction keys with
  | scalar scalar _ => exact prints_of_isScalar scalar
  | list _ each => exact prints_list each
  | map oneLine _ values => exact prints_map oneLine values

/-! ### Lines hold no line feed -/

theorem feed_notMem_map {lines : List (List Char)} (flat : ∀ line ∈ lines, '\n' ∉ line) {front : List Char}
    (frontFlat : '\n' ∉ front) : ∀ line ∈ lines.map (front ++ ·), '\n' ∉ line := by
  intro line member
  obtain ⟨rest, found, rfl⟩ := List.mem_map.mp member
  exact fun feed => (List.mem_append.mp feed).elim frontFlat (flat rest found)

theorem feed_notMem_hang {lines : List (List Char)} (flat : ∀ line ∈ lines, '\n' ∉ line)
    {first rest : List Char} (firstFlat : '\n' ∉ first) (restFlat : '\n' ∉ rest) :
    ∀ line ∈ hang first rest lines, '\n' ∉ line := by
  cases lines with
  | nil => simp
  | cons line lines =>
    obtain ⟨lineFlat, flat⟩ := List.forall_mem_cons.mp flat
    refine List.forall_mem_cons.mpr ⟨?_, feed_notMem_map flat restFlat⟩
    exact fun feed => (List.mem_append.mp feed).elim firstFlat lineFlat

theorem feed_notMem_indentation (level : Nat) : '\n' ∉ indentation level := by
  simp [indentation]

theorem feed_notMem_literalLines (text : List Char) : ∀ line ∈ literalLines text, '\n' ∉ line :=
  List.forall_mem_cons.mpr ⟨by simp, feed_notMem_map (fun _ => not_mem_of_mem_split) (by simp)⟩

theorem feed_notMem_hang_literalLines (text : List Char) (level : Nat) :
    ∀ line ∈ hang [] (indentation level) (literalLines text), '\n' ∉ line :=
  feed_notMem_hang (feed_notMem_literalLines text) (by simp) (feed_notMem_indentation level)

theorem feed_notMem_keyed {key : List Char} {block : Bool} {lines : List (List Char)}
    (keyFlat : '\n' ∉ key) (flat : ∀ line ∈ lines, '\n' ∉ line) :
    ∀ line ∈ keyed key block lines, '\n' ∉ line := by
  unfold keyed
  split
  · exact List.forall_mem_cons.mpr ⟨by simpa using keyFlat, feed_notMem_map flat (by simp)⟩
  · exact feed_notMem_hang flat (by simpa using keyFlat) (by simp)

theorem feed_notMem_lines {n : Node} (keys : n.LineKeys) : ∀ line ∈ n.lines, '\n' ∉ line := by
  induction keys with
  | @scalar n scalar _ =>
    by_cases oneLine : n.OneLine
    · rw [lines_of_oneLine oneLine]
      simpa using feed_notMem_scalarText oneLine
    · cases n with
      | str s =>
        rw [lines_of_feed (Classical.not_not.mp oneLine)]
        exact feed_notMem_literalLines _
      | _ => contradiction
  | @list items _ each =>
    rw [lines, itemLines_eq_flatMap]
    split
    · simp
    · intro line member
      obtain ⟨item, found, member⟩ := List.mem_flatMap.mp member
      exact feed_notMem_hang (each item found) (by simp) (by simp) line member
  | @map entries oneLine _ values =>
    rw [lines, entryLines_eq_flatMap]
    split
    · simp
    · intro line member
      obtain ⟨entry, found, member⟩ := List.mem_flatMap.mp member
      exact feed_notMem_keyed (feed_notMem_scalarText (oneLine entry found)) (values entry found) line member

/-! ### The document -/

theorem head_layout_of_isScalar {n : Node} (scalar : n.isScalar = true) :
    (n.layout 0).head? ≠ some '\n' := by
  by_cases oneLine : n.OneLine
  · rw [layout, write_of_oneLine oneLine, Buffer.toList_append, Buffer.toList_empty, List.nil_append]
    exact fun feed => feed_notMem_scalarText oneLine (List.mem_of_head? feed)
  · cases n with
    | str s =>
      rw [layout, write_of_feed (Classical.not_not.mp oneLine)]
      simp [blockText]
    | _ => contradiction

theorem head_layout_of_inline {n : Node} (inline : n.isBlock = false) :
    (n.layout 0).head? ≠ some '\n' := by
  cases n with
  | list items =>
    obtain rfl : items = [] := by simpa [isBlock] using inline
    simp [layout, write]
  | map entries =>
    obtain rfl : entries = [] := by simpa [isBlock] using inline
    simp [layout, write]
  | _ => exact head_layout_of_isScalar rfl

theorem documentText_eq_unlines {n : Node} (keys : n.LineKeys) : n.documentText = unlines n.lines := by
  have printed := prints_of_lineKeys keys .empty 0
  have flush : n.lines.map (indentation 0 ++ ·) = n.lines := by simp [indentation]
  change endLine (n.layout 0) = _ at printed
  change endLine (if (n.layout 0).head? = some '\n' then (n.layout 0).tail else n.layout 0) = _
  cases block : n.isBlock with
  | true =>
    obtain ⟨body, same⟩ := unlines_eq_concat (lines_ne_nil n)
    rw [if_pos block, flush, same, Buffer.toList_empty, endLine_nil, ← List.append_assoc] at printed
    obtain ⟨rest, text, ended⟩ : ∃ rest, n.layout 0 = ['\n'] ++ rest ∧
        endLine ([] ++ rest) = [] ++ body ++ ['\n'] := endLine_cut printed (by simp)
    rw [text, same]
    exact ended
  | false =>
    rw [block, if_neg Bool.false_ne_true, ← flush, ← hang_self] at printed
    rw [if_neg (head_layout_of_inline block)]
    simpa [indentation, hang_empty] using printed

/-- The document of a node is its lines, each followed by its only line feed. -/
theorem document_eq_lines {n : Node} (keys : n.LineKeys) :
    n.document = String.ofList (unlines n.lines) ∧ ∀ line ∈ n.lines, '\n' ∉ line :=
  ⟨congrArg String.ofList (documentText_eq_unlines keys), feed_notMem_lines keys⟩

def compactItems : Node :=
  map [(str "script", list [str "a\nb", list [], map [(str "k", str "x: y"), (null, map [])]]),
    (int (-1), list [list [bool true]])]

theorem document_compactItems : compactItems.LineKeys ∧ compactItems.document =
    "script:\n  - |\n      a\n      b\n  - []\n  - k: 'x: y'\n    null: \x7b\x7d\n-1:\n  - - true\n" := by
  have keys : compactItems.LineKeys := by
    simp [LineKeys, compactItems, every_map_iff, every_list_iff, every_scalar_iff, OneLine, isScalar,
      isCollection]
  refine ⟨keys, (document_eq_lines keys).1.trans ?_⟩
  decide

end Node
end CiPipeline
