import CiPipeline.Proofs.Node.Lines
import Mathlib.Data.List.DropRight

/-!
# Literals read back

Nothing in a literal says how far its lines are indented, and so a reader takes the margin of the first
line that can be seen: `readLiteral`. The margin that the writer adds makes no difference to what is
read (`readLiteral_blockText`), but a margin that the text itself begins with is lost or breaks the
literal: the text is read back exactly when its first line that is not empty has none (`readsBack_iff`).
-/

namespace CiPipeline
open Text

namespace Node

/-- A line on which nothing can be seen. -/
def isSpaces (line : List Char) : Bool := line.all (· == ' ')

def leadingSpaces (line : List Char) : Nat := (line.takeWhile (· == ' ')).length

/-- A line with the margin, or one that has nothing behind it. -/
def hasMargin (width : Nat) (line : List Char) : Bool :=
  decide (width ≤ leadingSpaces line) || isSpaces line && decide (line.length ≤ width)

/-- The lines without their margin, which is that of the first line that can be seen. The lines above it
are no longer than the margin, and those below have it or are no longer either. -/
def cutMargin (lines : List (List Char)) : Option (List (List Char)) :=
  match lines.dropWhile isSpaces with
  | [] => none
  | first :: below =>
    let width := leadingSpaces first
    if (lines.takeWhile isSpaces).all (·.length ≤ width) && below.all (hasMargin width) then
      some (lines.map (·.drop width))
    else none

/-- The text of a literal, from the lines under its bar. -/
def readLiteral (text : List Char) : Option (List Char) :=
  match closedLines (endLine text) with
  | ['|'] :: lines => (cutMargin lines).map ['\n'].intercalate
  | _ => none

/-- What the writer puts down for the string is read as the string, up to line feeds at its end. -/
def ReadsBack (s : String) (level : Nat) : Prop :=
  ∃ text, readLiteral ((str s).render level).toList = some text ∧
    text.rdropWhile (· == '\n') = s.toList.rdropWhile (· == '\n')

/-! ### Margins -/

theorem isSpaces_append_spaces (width : Nat) (line : List Char) :
    isSpaces (List.replicate width ' ' ++ line) = isSpaces line := by
  simp [isSpaces]

theorem leadingSpaces_append_spaces (width : Nat) (line : List Char) :
    leadingSpaces (List.replicate width ' ' ++ line) = width + leadingSpaces line := by
  rw [leadingSpaces, List.takeWhile_append_of_pos (by simp), List.length_append, List.length_replicate,
    leadingSpaces]

theorem hasMargin_append_spaces (width more : Nat) (line : List Char) :
    hasMargin (width + more) (List.replicate width ' ' ++ line) = hasMargin more line := by
  simp [hasMargin, isSpaces_append_spaces, leadingSpaces_append_spaces]

theorem drop_append_spaces (width more : Nat) (line : List Char) :
    (List.replicate width ' ' ++ line).drop (width + more) = line.drop more := by
  rw [← List.drop_drop, List.drop_left' List.length_replicate]

/-- A margin in front of all lines is cut off with their own. -/
theorem cutMargin_map_spaces (width : Nat) (lines : List (List Char)) :
    cutMargin (lines.map (List.replicate width ' ' ++ ·)) = cutMargin lines := by
  have spaces : isSpaces ∘ (List.replicate width ' ' ++ ·) = isSpaces :=
    funext (isSpaces_append_spaces width)
  rw [cutMargin, List.dropWhile_map, List.takeWhile_map, spaces, cutMargin]
  cases lines.dropWhile isSpaces with
  | nil => rfl
  | cons first below =>
    simp [leadingSpaces_append_spaces, Function.comp_def, hasMargin_append_spaces, drop_append_spaces]

theorem cutMargin_eq_some_iff {lines rest : List (List Char)} :
    cutMargin lines = some rest ↔ ∃ above first below, lines = above ++ first :: below ∧
      (∀ line ∈ above, isSpaces line = true ∧ line.length ≤ leadingSpaces first) ∧
      isSpaces first = false ∧ (∀ line ∈ below, hasMargin (leadingSpaces first) line = true) ∧
      rest = lines.map (·.drop (leadingSpaces first)) := by
  constructor
  · intro cut
    rw [cutMargin] at cut
    split at cut
    · cases cut
    next first below found =>
      have whole := List.takeWhile_append_dropWhile (p := isSpaces) (l := lines)
      rw [found] at whole
      have visible : isSpaces first = false := by
        have head := List.head_dropWhile_not isSpaces (l := lines) (by simp [found])
        simpa [found] using head
      dsimp only at cut
      split at cut
      next fits =>
        simp only [Bool.and_eq_true, List.all_eq_true, decide_eq_true_eq] at fits
        refine ⟨_, first, below, whole.symm, fun line member => ?_, visible, fits.2,
          (Option.some.inj cut).symm⟩
        exact ⟨List.mem_takeWhile_imp member, fits.1 line member⟩
      · cases cut
  · rintro ⟨above, first, below, rfl, short, visible, margins, rfl⟩
    have spaces : ∀ line ∈ above, isSpaces line = true := fun line member => (short line member).1
    have taken : (above ++ first :: below).takeWhile isSpaces = above := by
      rw [List.takeWhile_append_of_pos spaces, List.takeWhile_cons_of_neg (by simp [visible]),
        List.append_nil]
    have left : (above ++ first :: below).dropWhile isSpaces = first :: below := by
      rw [List.dropWhile_append_of_pos spaces, List.dropWhile_cons_of_neg (by simp [visible])]
    have fits : (above.all (·.length ≤ leadingSpaces first) &&
        below.all (hasMargin (leadingSpaces first))) = true := by
      simp only [Bool.and_eq_true, List.all_eq_true, decide_eq_true_eq]
      exact ⟨fun line member => (short line member).2, margins⟩
    rw [cutMargin, left, taken]
    exact if_pos fits

theorem feed_notMem_of_cutMargin {lines rest : List (List Char)} (flat : ∀ line ∈ lines, '\n' ∉ line)
    (cut : cutMargin lines = some rest) : ∀ line ∈ rest, '\n' ∉ line := by
  obtain ⟨above, first, below, -, -, -, -, rfl⟩ := cutMargin_eq_some_iff.mp cut
  intro line member
  obtain ⟨source, found, rfl⟩ := List.mem_map.mp member
  exact fun inside => flat source found (List.mem_of_mem_drop inside)

/-! ### The literal of a text -/

/-- The margin of the level has no part in what is read. -/
theorem readLiteral_blockText (text : List Char) (level : Nat) :
    readLiteral (blockText text level) = (cutMargin (split '\n' text)).map ['\n'].intercalate := by
  have closed : endLine (blockText text level) = blockText text level := by
    have nonempty : hang [] (indentation level) (literalLines text) ≠ [] := by simp [literalLines]
    rw [blockText_eq]
    exact endLine_append_unlines nonempty []
  have lines : closedLines (endLine (blockText text level)) =
      ['|'] :: (split '\n' text).map (indentation (level + 1) ++ ·) := by
    rw [closed, blockText_eq, closedLines_unlines (feed_notMem_hang_literalLines text level)]
    simp [literalLines, indentation_succ, Function.comp_def]
  rw [readLiteral, lines]
  exact congrArg (Option.map _) (cutMargin_map_spaces _ _)

/-! ### Characters of lines -/

theorem filter_intercalate {lines : List (List Char)} (flat : ∀ line ∈ lines, '\n' ∉ line) :
    (['\n'].intercalate lines).filter (· ≠ '\n') = lines.flatten := by
  induction lines with
  | nil => rfl
  | cons line lines ih =>
    obtain ⟨first, others⟩ := List.forall_mem_cons.mp flat
    have kept : line.filter (· ≠ '\n') = line :=
      List.filter_eq_self.mpr fun c member => decide_eq_true fun feed => first (feed ▸ member)
    cases lines with
    | nil => simpa [List.intercalate] using kept
    | cons next lines =>
      rw [List.intercalate_cons_cons, List.filter_append, List.filter_append, kept, ih others]
      simp

theorem flatten_split (text : List Char) : (split '\n' text).flatten = text.filter (· ≠ '\n') := by
  rw [← filter_intercalate fun _ => not_mem_of_mem_split, intercalate_split]

theorem filter_rdropWhile (text : List Char) :
    (text.rdropWhile (· == '\n')).filter (· ≠ '\n') = text.filter (· ≠ '\n') := by
  induction text using List.reverseRecOn with
  | nil => rfl
  | append_singleton text c ih =>
    rw [List.rdropWhile_concat]
    split
    next feed => simpa [beq_iff_eq.mp feed] using ih
    next => rfl

theorem length_flatten_map_drop_le (width : Nat) (lines : List (List Char)) :
    (lines.map (·.drop width)).flatten.length ≤ lines.flatten.length := by
  induction lines with
  | nil => simp
  | cons line lines ih =>
    simp only [List.map_cons, List.flatten_cons, List.length_append, List.length_drop]
    omega

theorem head_dropWhile_feed (text : List Char) :
    (text.dropWhile (· == '\n')).head? = ((split '\n' text).find? (!·.isEmpty)).bind (·.head?) := by
  induction text with
  | nil => rfl
  | cons c text ih =>
    by_cases feed : c = '\n'
    · rw [List.dropWhile_cons_of_pos (by simpa using feed), ih, split, if_pos feed]
      rfl
    · obtain ⟨piece, pieces, pieced⟩ := List.exists_cons_of_ne_nil (split_ne_nil '\n' text)
      rw [List.dropWhile_cons_of_neg (by simpa using feed), split, if_neg feed, pieced]
      rfl

/-! ### Reading back -/

theorem exists_visible_line {text : List Char} (visible : allBlank text = false) :
    ∃ line ∈ split '\n' text, isSpaces line = false := by
  obtain ⟨c, member, seen⟩ := List.all_eq_false.mp visible
  have blankFeed : isBlank '\n' = true := by decide
  have blankSpace : isBlank ' ' = true := by decide
  have notFeed : c ≠ '\n' := fun same => seen (same ▸ blankFeed)
  have notSpace : c ≠ ' ' := fun same => seen (same ▸ blankSpace)
  have kept : c ∈ (split '\n' text).flatten := by
    rw [flatten_split, List.mem_filter]
    exact ⟨member, decide_eq_true notFeed⟩
  obtain ⟨line, found, inLine⟩ := List.mem_flatten.mp kept
  exact ⟨line, found, List.all_eq_false.mpr ⟨c, inLine, by simpa using notSpace⟩⟩

/-- A margin that is cut off takes a character of the line that can be seen. -/
theorem width_eq_zero {above below : List (List Char)} {first : List Char} (nonempty : first ≠ [])
    {width : Nat} (same : ((above ++ first :: below).map (·.drop width)).flatten = (above ++ first :: below).flatten) :
    width = 0 := by
  have length := congrArg List.length same
  have shorterAbove := length_flatten_map_drop_le width above
  have shorterBelow := length_flatten_map_drop_le width below
  have positive := List.length_pos_iff.mpr nonempty
  simp only [List.map_append, List.map_cons, List.flatten_append, List.flatten_cons, List.length_append,
    List.length_drop] at length
  omega

theorem leadingSpaces_eq_zero_iff {line : List Char} : leadingSpaces line = 0 ↔ line.head? ≠ some ' ' := by
  cases line with
  | nil => simp [leadingSpaces]
  | cons c line => by_cases space : c = ' ' <;> simp [leadingSpaces, space]

theorem isSpaces_eq_false {line : List Char} (nonempty : line ≠ []) (flush : line.head? ≠ some ' ') :
    isSpaces line = false := by
  obtain ⟨c, rest, rfl⟩ := List.exists_cons_of_ne_nil nonempty
  have notSpace : c ≠ ' ' := by simpa using flush
  simp [isSpaces, notSpace]

/-- Where nothing but the margin of the level is cut off, no line above the first that can be seen holds
anything, and that line has no margin. -/
theorem head_ne_space_of_cutMargin {lines rest : List (List Char)} (cut : cutMargin lines = some rest)
    (same : rest.flatten = lines.flatten) :
    (lines.find? (!·.isEmpty)).bind (·.head?) ≠ some ' ' := by
  obtain ⟨above, first, below, rfl, short, visible, -, rfl⟩ := cutMargin_eq_some_iff.mp cut
  have nonempty : first ≠ [] := by
    rintro rfl
    cases visible
  have width := width_eq_zero nonempty same
  have empty : ∀ line ∈ above, line = [] := fun line member => by
    have length := (short line member).2
    rw [width] at length
    exact List.length_eq_zero_iff.mp (Nat.le_zero.mp length)
  have found : (above ++ first :: below).find? (!·.isEmpty) = some first := by
    rw [List.find?_eq_some_iff_append]
    exact ⟨by simpa using nonempty, above, below, rfl, fun line member => by simp [empty line member]⟩
  rw [found]
  exact leadingSpaces_eq_zero_iff.mp width

theorem cutMargin_of_head_ne_space {lines : List (List Char)} {first : List Char}
    (found : lines.find? (!·.isEmpty) = some first) (flush : first.head? ≠ some ' ') :
    cutMargin lines = some lines := by
  obtain ⟨nonempty, above, below, whole, empty⟩ := List.find?_eq_some_iff_append.mp found
  have width := leadingSpaces_eq_zero_iff.mpr flush
  refine cutMargin_eq_some_iff.mpr ⟨above, first, below, whole, ?above, ?first, ?below, ?lines⟩
  case above =>
    intro line member
    obtain rfl : line = [] := by simpa using empty line member
    exact ⟨rfl, Nat.zero_le _⟩
  case first => exact isSpaces_eq_false (by simpa using nonempty) flush
  case below =>
    intro line _
    simp [hasMargin, width]
  case lines => simp [width]

/-- A literal is read back as its text, up to line feeds at the end, exactly when the first line of the
text that is not empty begins without a space. -/
theorem readsBack_iff {s : String} (feed : '\n' ∈ s.toList) (visible : allBlank s.toList = false) (level : Nat) :
    ReadsBack s level ↔ (s.toList.dropWhile (· == '\n')).head? ≠ some ' ' := by
  have read : readLiteral ((str s).render level).toList =
      (cutMargin (split '\n' s.toList)).map ['\n'].intercalate := by
    rw [toList_render, layout_of_feed feed, readLiteral_blockText]
  have flat : ∀ line ∈ split '\n' s.toList, '\n' ∉ line := fun _ => not_mem_of_mem_split
  rw [ReadsBack, read, head_dropWhile_feed]
  constructor
  · rintro ⟨text, dedented, same⟩
    obtain ⟨lines, cut, rfl⟩ := Option.map_eq_some_iff.mp dedented
    -- line feeds at the end aside, what was read has the characters of the string on its lines
    have characters := congrArg (List.filter (· ≠ '\n')) same
    rw [filter_rdropWhile, filter_rdropWhile, filter_intercalate (feed_notMem_of_cutMargin flat cut),
      ← flatten_split] at characters
    exact head_ne_space_of_cutMargin cut characters
  · intro flush
    obtain ⟨seen, member, notSpaces⟩ := exists_visible_line visible
    have nonempty : (!seen.isEmpty) = true := by
      cases seen with
      | nil => cases notSpaces
      | cons c seen => rfl
    obtain ⟨first, found⟩ : ∃ first, (split '\n' s.toList).find? (!·.isEmpty) = some first :=
      Option.isSome_iff_exists.mp (List.find?_isSome.mpr ⟨seen, member, nonempty⟩)
    rw [found, Option.bind_some] at flush
    refine ⟨s.toList, ?_, rfl⟩
    rw [cutMargin_of_head_ne_space found flush, Option.map_some, intercalate_split]

/-- A margin behind the first line, a line of spaces, and empty lines around them. -/
theorem readsBack_deeperLines : '\n' ∈ "\n\nif x:\n  y\n   \n\n".toList ∧
    allBlank "\n\nif x:\n  y\n   \n\n".toList = false ∧ ReadsBack "\n\nif x:\n  y\n   \n\n" 2 := by
  have feed : '\n' ∈ "\n\nif x:\n  y\n   \n\n".toList := by decide
  have visible : allBlank "\n\nif x:\n  y\n   \n\n".toList = false := by decide
  exact ⟨feed, visible, (readsBack_iff feed visible 2).mpr (by decide)⟩

/-- Behind a first line with a margin of its own, a line without one ends the literal. -/
theorem not_readsBack_indentedFirst : ¬ ∀ (s : String) (level : Nat), '\n' ∈ s.toList →
    allBlank s.toList = false → ReadsBack s level := by
  intro all
  obtain ⟨text, read, -⟩ := all " a\nb" 0 (by decide) (by decide)
  have refused : readLiteral ((str " a\nb").render 0).toList = none := by decide
  rw [refused] at read
  cases read

end Node
end CiPipeline
