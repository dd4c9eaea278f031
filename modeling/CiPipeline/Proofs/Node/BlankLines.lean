import CiPipeline.Proofs.Node.Sections

/-!
# No blank lines

The writer never puts down a line feed behind another one, whatever the node, its keys included, and
the level: each step keeps `NoBlankLine` of the text so far (`noBlankLine_write`). So every line of a
document holds something, and the document ends with the line feed of its last line
(`noBlankLine_document`).
-/

namespace CiPipeline
open Text

namespace Text

/-- No line feed stands behind another. -/
def NoBlankLine (text : List Char) : Prop := ¬ ['\n', '\n'] <:+: text

theorem NoBlankLine.of_infix {text part : List Char} (noBlank : NoBlankLine text)
    (inside : part <:+: text) : NoBlankLine part :=
  fun found => noBlank (found.trans inside)

theorem noBlankLine_of_flat {text : List Char} (flat : '\n' ∉ text) : NoBlankLine text :=
  fun found => flat (found.subset List.mem_cons_self)

theorem noBlankLine_append {text rest : List Char} (noBlank : NoBlankLine text)
    (restNoBlank : NoBlankLine rest) (meet : text.getLast? = some '\n' → rest.head? ≠ some '\n') :
    NoBlankLine (text ++ rest) := by
  intro found
  rcases List.infix_append_iff.mp found with inText | inRest | ⟨front, back, cut, ends, begins⟩
  · exact noBlank inText
  · exact restNoBlank inRest
  -- the two line feeds stand where the texts meet, and one of them may be on neither side
  · match front, back, cut with
    | [], _, rfl => exact restNoBlank begins.isInfix
    | [_], [_], rfl =>
      obtain ⟨front, rfl⟩ := ends
      obtain ⟨back, rfl⟩ := begins
      exact meet List.getLast?_concat rfl
    | [_, _], [], rfl => exact noBlank ends.isInfix

theorem noBlankLine_append_flat {text word : List Char} (noBlank : NoBlankLine text) (flat : '\n' ∉ word) :
    NoBlankLine (text ++ word) :=
  noBlankLine_append noBlank (noBlankLine_of_flat flat) fun _ head => flat (List.mem_of_head? head)

theorem noBlankLine_endLine {text : List Char} (noBlank : NoBlankLine text) : NoBlankLine (endLine text) := by
  unfold endLine
  split
  · exact noBlank
  next isOpen =>
    have feed : NoBlankLine ['\n'] := fun found => absurd found.length_le (by simp)
    exact noBlankLine_append noBlank feed fun ended => absurd ended isOpen

theorem head_unlines_ne_feed {lines : List (List Char)}
    (filled : ∀ line ∈ lines, line ≠ [] ∧ '\n' ∉ line) : (unlines lines).head? ≠ some '\n' := by
  cases lines with
  | nil => simp
  | cons line lines =>
    obtain ⟨⟨nonempty, flat⟩, -⟩ := List.forall_mem_cons.mp filled
    obtain ⟨c, line, rfl⟩ := List.exists_cons_of_ne_nil nonempty
    rw [List.mem_cons, not_or] at flat
    simpa using Ne.symm flat.1

theorem noBlankLine_unlines {lines : List (List Char)}
    (filled : ∀ line ∈ lines, line ≠ [] ∧ '\n' ∉ line) : NoBlankLine (unlines lines) := by
  induction lines with
  | nil => exact noBlankLine_of_flat (by simp)
  | cons line lines ih =>
    obtain ⟨⟨nonempty, flat⟩, others⟩ := List.forall_mem_cons.mp filled
    have first : NoBlankLine (endLine line) := noBlankLine_endLine (noBlankLine_of_flat flat)
    have ended : endLine line = line ++ ['\n'] := endLine_append_word nonempty flat []
    rw [ended] at first
    rw [unlines_cons, ← List.singleton_append, ← List.append_assoc]
    exact noBlankLine_append first (ih others) fun _ => head_unlines_ne_feed others

end Text

namespace Node

/-! ### What the writer keeps -/

/-- Even an empty piece of a literal stands on a line with a margin. -/
theorem noBlankLine_blockText (text : List Char) (level : Nat) : NoBlankLine (blockText text level) := by
  rw [blockText_eq]
  refine noBlankLine_unlines fun line member => ⟨?_, feed_notMem_hang_literalLines text level line member⟩
  rw [literalLines, hang_cons, List.mem_cons] at member
  rcases member with rfl | member
  · simp
  · obtain ⟨piece, found, rfl⟩ := List.mem_map.mp member
    obtain ⟨source, -, rfl⟩ := List.mem_map.mp found
    simp

theorem noBlankLine_write_of_isScalar {n : Node} (scalar : n.isScalar = true) {out : Buffer}
    (noBlank : NoBlankLine out.toList) (level : Nat) : NoBlankLine (n.write out level).toList := by
  by_cases oneLine : n.OneLine
  · rw [write_of_oneLine oneLine, Buffer.toList_append]
    exact noBlankLine_append_flat noBlank (feed_notMem_scalarText oneLine)
  · cases n with
    | str s =>
      rw [write_of_feed (Classical.not_not.mp oneLine), Buffer.toList_append]
      exact noBlankLine_append noBlank (noBlankLine_blockText _ level) fun _ => by simp [blockText]
    | _ => contradiction

theorem noBlankLine_beginEntry {out : Buffer} (noBlank : NoBlankLine out.toList) (level : Nat) :
    NoBlankLine (beginEntry out level).toList := by
  rw [toList_beginEntry]
  exact noBlankLine_append_flat (noBlankLine_endLine noBlank) (feed_notMem_indentation level)

theorem firstEntryCut_suffix (text : List Char) (level : Nat) : firstEntryCut text level <:+ text := by
  unfold firstEntryCut
  cases cut : dropBytes? (1 + 2 * level) text with
  | none => exact List.nil_suffix
  | some rest =>
    obtain ⟨front, whole, -⟩ := eq_append_of_dropBytes? cut
    exact ⟨front, whole.symm⟩

mutual

theorem noBlankLine_write (n : Node) {out : Buffer} (noBlank : NoBlankLine out.toList) (level : Nat) :
    NoBlankLine (n.write out level).toList := by
  cases n with
  | list items =>
    rw [write]
    split
    · rw [Buffer.toList_append]
      exact noBlankLine_append_flat noBlank (by simp)
    · exact noBlankLine_writeItems items noBlank level
  | map entries =>
    rw [write]
    split
    · rw [Buffer.toList_append]
      exact noBlankLine_append_flat noBlank (by simp)
    · exact noBlankLine_writeEntries entries noBlank level
  | _ => exact noBlankLine_write_of_isScalar rfl noBlank level

theorem noBlankLine_writeItems (items : List Node) {out : Buffer} (noBlank : NoBlankLine out.toList)
    (level : Nat) : NoBlankLine (writeItems out level items).toList := by
  cases items with
  | nil => exact noBlank
  | cons item items =>
    have dash : NoBlankLine ((beginEntry out level).append ['-', ' ']).toList := by
      rw [Buffer.toList_append]
      exact noBlankLine_append_flat (noBlankLine_beginEntry noBlank level) (by simp)
    rw [writeItems]
    refine noBlankLine_writeItems items ?_ level
    cases item.isBlock with
    | true =>
      have apart : NoBlankLine (item.write .empty (level + 1)).toList :=
        noBlankLine_write item (noBlankLine_of_flat (by simp)) (level + 1)
      rw [if_pos rfl, Buffer.toList_append]
      refine noBlankLine_append dash (apart.of_infix (firstEntryCut_suffix _ _).isInfix) fun ended => ?_
      simp at ended
    | false => exact noBlankLine_write item dash (level + 1)

theorem noBlankLine_writeEntries (entries : List (Node × Node)) {out : Buffer}
    (noBlank : NoBlankLine out.toList) (level : Nat) : NoBlankLine (writeEntries out level entries).toList := by
  cases entries with
  | nil => exact noBlank
  | cons entry entries =>
    obtain ⟨key, value⟩ := entry
    have header : NoBlankLine ((key.write (beginEntry out level) (level + 1)).push ':').toList := by
      rw [Buffer.toList_push]
      exact noBlankLine_append_flat
        (noBlankLine_write key (noBlankLine_beginEntry noBlank level) (level + 1)) (by simp)
    rw [writeEntries]
    refine noBlankLine_writeEntries entries ?_ level
    cases value.isBlock with
    | true => exact noBlankLine_write value header (level + 1)
    | false =>
      refine noBlankLine_write value ?_ (level + 1)
      rw [Buffer.toList_push]
      exact noBlankLine_append_flat header (by simp)

end

theorem noBlankLine_layout (n : Node) (level : Nat) : NoBlankLine (n.layout level) :=
  noBlankLine_write n (noBlankLine_of_flat (by simp)) level

/-! ### Documents -/

theorem prefix_write (n : Node) (out : Buffer) (level : Nat) : out.toList <+: (n.write out level).toList := by
  obtain ⟨text, grown⟩ := (appends_write n level).exists_append out
  exact ⟨text, by rw [grown, Buffer.toList_append]⟩

theorem prefix_writeItems (items : List Node) (out : Buffer) (level : Nat) :
    out.toList <+: (writeItems out level items).toList := by
  obtain ⟨text, grown⟩ := (appends_writeItems items level).exists_append out
  exact ⟨text, by rw [grown, Buffer.toList_append]⟩

theorem prefix_writeEntries (entries : List (Node × Node)) (out : Buffer) (level : Nat) :
    out.toList <+: (writeEntries out level entries).toList := by
  obtain ⟨text, grown⟩ := (appends_writeEntries entries level).exists_append out
  exact ⟨text, by rw [grown, Buffer.toList_append]⟩

theorem visible_layout_of_isScalar {n : Node} (scalar : n.isScalar = true) (level : Nat) :
    ∃ c ∈ n.layout level, c ≠ '\n' := by
  by_cases oneLine : n.OneLine
  · obtain ⟨c, word, text⟩ := List.exists_cons_of_ne_nil (scalarText_ne_nil scalar)
    have member : c ∈ n.scalarText := text ▸ List.mem_cons_self
    refine ⟨c, ?_, fun feed => feed_notMem_scalarText oneLine (feed ▸ member)⟩
    rwa [layout_of_oneLine oneLine]
  · cases n with
    | str s =>
      refine ⟨'|', ?_, by decide⟩
      simp [layout_of_feed (Classical.not_not.mp oneLine), blockText]
    | _ => contradiction

/-- No layout is empty or has nothing but a line feed. -/
theorem visible_layout (n : Node) (level : Nat) : ∃ c ∈ n.layout level, c ≠ '\n' := by
  cases n with
  | list items =>
    cases items with
    | nil => exact ⟨'[', by simp [layout, write], by decide⟩
    | cons item items =>
      refine ⟨'-', ?_, by decide⟩
      rw [layout, write, if_neg (by simp), writeItems]
      refine (prefix_writeItems items _ level).subset ?_
      have dash : '-' ∈ ((beginEntry .empty level).append ['-', ' ']).toList := by simp
      cases item.isBlock with
      | true => simp
      | false => exact (prefix_write item _ (level + 1)).subset dash
  | map entries =>
    cases entries with
    | nil => exact ⟨'\x7b', by simp [layout, write], by decide⟩
    | cons entry entries =>
      obtain ⟨key, value⟩ := entry
      refine ⟨':', ?_, by decide⟩
      rw [layout, write, if_neg (by simp), writeEntries]
      refine (prefix_writeEntries entries _ level).subset ?_
      have colon : ':' ∈ ((key.write (beginEntry .empty level) (level + 1)).push ':').toList := by simp
      cases value.isBlock with
      | true => exact (prefix_write value _ (level + 1)).subset colon
      | false => exact (prefix_write value _ (level + 1)).subset (by simp)
  | _ => exact visible_layout_of_isScalar rfl level

/-- The layout at level zero without the line feed in front. -/
theorem documentText_eq_endLine (n : Node) :
    ∃ text, n.documentText = endLine text ∧ text ≠ [] ∧ text.head? ≠ some '\n' ∧ NoBlankLine text := by
  have noBlank := noBlankLine_layout n 0
  obtain ⟨c, member, visible⟩ := visible_layout n 0
  by_cases opened : (n.layout 0).head? = some '\n'
  · obtain ⟨text, laid⟩ := List.head?_eq_some_iff.mp opened
    have document : n.documentText = endLine text := by
      rw [documentText, if_pos opened, laid]
      rfl
    rw [laid] at noBlank member
    refine ⟨text, document, ?_, fun again => ?_, noBlank.of_infix (List.suffix_cons _ _).isInfix⟩
    · exact List.ne_nil_of_mem ((List.mem_cons.mp member).resolve_left visible)
    · obtain ⟨rest, rfl⟩ := List.head?_eq_some_iff.mp again
      exact noBlank ⟨[], rest, rfl⟩
  · have document : n.documentText = endLine (n.layout 0) := by
      rw [documentText, if_neg opened]
      rfl
    exact ⟨n.layout 0, document, List.ne_nil_of_mem member, opened, noBlank⟩

theorem documentText_ne_nil (n : Node) : n.documentText ≠ [] := by
  obtain ⟨text, document, -⟩ := documentText_eq_endLine n
  obtain ⟨front, ended⟩ := endLine_eq_concat text
  rw [document, ended]
  simp

/-- No layout has a blank line. A document has none either and does not begin with one, and its last
character is the line feed that ends its last line. -/
theorem noBlankLine_document (n : Node) :
    (∀ level, NoBlankLine (n.render level).toList) ∧
      n.document.toList ≠ [] ∧ n.document.toList.head? ≠ some '\n' ∧
      n.document.toList.getLast? = some '\n' ∧ NoBlankLine n.document.toList := by
  obtain ⟨text, document, nonempty, flush, noBlank⟩ := documentText_eq_endLine n
  obtain ⟨front, ended⟩ := endLine_eq_concat text
  obtain ⟨c, text, rfl⟩ := List.exists_cons_of_ne_nil nonempty
  obtain ⟨rest, grown⟩ := prefix_endLine (c :: text)
  refine ⟨fun level => ?renders, ?nonempty, ?head, ?last, ?noBlank⟩
  case renders =>
    rw [toList_render]
    exact noBlankLine_layout n level
  case nonempty =>
    rw [toList_document, document, ended]
    simp
  case head =>
    rw [toList_document, document, ← grown]
    exact flush
  case last =>
    rw [toList_document, document, ended]
    exact List.getLast?_concat
  case noBlank =>
    rw [toList_document, document]
    exact noBlankLine_endLine noBlank

end Node
end CiPipeline
