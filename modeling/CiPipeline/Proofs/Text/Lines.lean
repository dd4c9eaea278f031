import CiPipeline.Text.Split

/-!
# Lines of a text

`unlines` writes lines, each with its line feed, and `hang` puts text in front of lines, the first
of them apart. `endLine` ends a last line that is still open; `endLine_cut` moves a text whose last
line may be open behind another one. `unlines_injective` recovers the lines from their text, and
`closedLines` are those of any text that ends with a line feed.
-/

namespace CiPipeline.Text

def unlines (lines : List (List Char)) : List Char := lines.flatMap (· ++ ['\n'])

/-- One text before the first line and another before the rest. -/
def hang (first rest : List Char) : List (List Char) → List (List Char)
  | [] => []
  | line :: lines => (first ++ line) :: lines.map (rest ++ ·)

def endLine (text : List Char) : List Char :=
  if text.getLast? = some '\n' then text else text ++ ['\n']

/-! ### Writing lines -/

@[simp] theorem unlines_nil : unlines [] = [] := rfl

@[simp] theorem unlines_cons (line : List Char) (lines : List (List Char)) :
    unlines (line :: lines) = line ++ '\n' :: unlines lines := by
  simp [unlines]

@[simp] theorem unlines_append (first second : List (List Char)) :
    unlines (first ++ second) = unlines first ++ unlines second := by
  simp [unlines]

theorem unlines_eq_concat {lines : List (List Char)} (nonempty : lines ≠ []) :
    ∃ text, unlines lines = text ++ ['\n'] := by
  obtain ⟨front, line, rfl⟩ := List.eq_nil_or_concat lines |>.resolve_left nonempty
  exact ⟨unlines front ++ line, by simp⟩

theorem split_append_line {line : List Char} (flat : '\n' ∉ line) (text : List Char) :
    split '\n' (line ++ '\n' :: text) = line :: split '\n' text := by
  induction line with
  | nil => simp [split]
  | cons c line ih =>
    have differs : c ≠ '\n' := fun same => flat (same ▸ List.mem_cons_self)
    have rest := ih fun member => flat (List.mem_cons_of_mem _ member)
    rw [List.cons_append, split, if_neg differs, rest]

theorem split_unlines {lines : List (List Char)} (flat : ∀ line ∈ lines, '\n' ∉ line) :
    split '\n' (unlines lines) = lines ++ [[]] := by
  induction lines with
  | nil => rfl
  | cons line lines ih =>
    rw [unlines_cons, split_append_line (flat line List.mem_cons_self),
      ih fun other member => flat other (List.mem_cons_of_mem _ member), List.cons_append]

theorem unlines_injective {first second : List (List Char)}
    (firstFlat : ∀ line ∈ first, '\n' ∉ line) (secondFlat : ∀ line ∈ second, '\n' ∉ line)
    (same : unlines first = unlines second) : first = second := by
  have pieces := congrArg (split '\n') same
  rw [split_unlines firstFlat, split_unlines secondFlat] at pieces
  exact List.append_cancel_right pieces

/-! ### Text in front of lines -/

@[simp] theorem hang_nil (first rest : List Char) : hang first rest [] = [] := rfl

@[simp] theorem hang_cons (first rest line : List Char) (lines : List (List Char)) :
    hang first rest (line :: lines) = (first ++ line) :: lines.map (rest ++ ·) := rfl

theorem hang_eq_nil_iff {first rest : List Char} {lines : List (List Char)} :
    hang first rest lines = [] ↔ lines = [] := by
  cases lines <;> simp

theorem map_append_hang (outer first rest : List Char) (lines : List (List Char)) :
    (hang first rest lines).map (outer ++ ·) = hang (outer ++ first) (outer ++ rest) lines := by
  cases lines <;> simp [Function.comp_def]

theorem hang_self (text : List Char) (lines : List (List Char)) :
    hang text text lines = lines.map (text ++ ·) := by
  cases lines <;> rfl

theorem hang_empty (lines : List (List Char)) : hang [] [] lines = lines := by
  rw [hang_self]
  simp

theorem unlines_hang {lines : List (List Char)} (nonempty : lines ≠ []) (first rest : List Char) :
    unlines (hang first rest lines) = first ++ unlines (hang [] rest lines) := by
  cases lines with
  | nil => contradiction
  | cons line lines => simp

/-! ### Lines under a first line -/

/-- The first line has no margin and all others have one. -/
def Hanging (lines : List (List Char)) : Prop :=
  ∃ first rest, lines = first :: rest ∧ first.head? ≠ some ' ' ∧ ∀ line ∈ rest, line.head? = some ' '

theorem hanging_hang {lines : List (List Char)} (nonempty : lines ≠ []) {first rest : List Char}
    (flush : first.head? ≠ some ' ') (some : first ≠ []) : Hanging (hang first (' ' :: rest) lines) := by
  cases lines with
  | nil => contradiction
  | cons line lines =>
    obtain ⟨c, first, rfl⟩ := List.exists_cons_of_ne_nil some
    refine ⟨_, _, rfl, by simpa using flush, ?_⟩
    intro deeper member
    obtain ⟨source, -, rfl⟩ := List.mem_map.mp member
    rfl

theorem map_append_injective {front : List Char} {first second : List (List Char)}
    (same : first.map (front ++ ·) = second.map (front ++ ·)) : first = second :=
  (List.map_inj_right fun _ _ => List.append_cancel_left).mp same

theorem hang_injective {start rest : List Char} {first second : List (List Char)}
    (same : hang start rest first = hang start rest second) : first = second := by
  cases first with
  | nil => exact (hang_eq_nil_iff.mp same.symm).symm
  | cons line lines =>
    cases second with
    | nil => cases same
    | cons line' lines' =>
      obtain ⟨head, tail⟩ := List.cons.inj same
      rw [List.append_cancel_left head, map_append_injective tail]

/-- Where the lines with a margin end, a next first line begins or nothing is left. -/
theorem Hanging.append_cancel {lines lines' rest rest' : List (List Char)} (hanging : Hanging lines)
    (hanging' : Hanging lines') (flush : ∀ line ∈ rest.head?, line.head? ≠ some ' ')
    (flush' : ∀ line ∈ rest'.head?, line.head? ≠ some ' ') (same : lines ++ rest = lines' ++ rest') :
    lines = lines' ∧ rest = rest' := by
  obtain ⟨first, deeper, rfl, -, margin⟩ := hanging
  obtain ⟨first', deeper', rfl, -, margin'⟩ := hanging'
  have taken : ∀ {deeper rest : List (List Char)}, (∀ line ∈ deeper, line.head? = some ' ') →
      (∀ line ∈ rest.head?, line.head? ≠ some ' ') →
      (deeper ++ rest).takeWhile (·.head? == some ' ') = deeper := by
    intro deeper rest margin flush
    rw [List.takeWhile_append_of_pos (by simpa using margin)]
    cases rest with
    | nil => simp
    | cons line rest =>
      have stop : line.head? ≠ some ' ' := flush line rfl
      simp [stop]
  obtain ⟨rfl, tails⟩ := List.cons.inj same
  change deeper ++ rest = deeper' ++ rest' at tails
  have marked := congrArg (List.takeWhile (·.head? == some ' ')) tails
  rw [taken margin flush, taken margin' flush'] at marked
  subst marked
  exact ⟨rfl, List.append_cancel_left tails⟩

theorem Hanging.head_flatMap {α : Type} {f : α → List (List Char)} {items : List α}
    (hanging : ∀ item ∈ items, Hanging (f item)) :
    ∀ line ∈ (items.flatMap f).head?, line.head? ≠ some ' ' := by
  cases items with
  | nil => simp
  | cons item items =>
    obtain ⟨first, rest, same, flush, -⟩ := hanging item List.mem_cons_self
    simpa [same] using flush

theorem flatMap_injective_of_hanging {α : Type} {f : α → List (List Char)} {items items' : List α}
    (hanging : ∀ item ∈ items, Hanging (f item)) (hanging' : ∀ item ∈ items', Hanging (f item))
    (part : ∀ item ∈ items, ∀ item' ∈ items', f item = f item' → item = item')
    (same : items.flatMap f = items'.flatMap f) : items = items' := by
  induction items generalizing items' with
  | nil =>
    cases items' with
    | nil => rfl
    | cons item' items' =>
      obtain ⟨first, rest, lines, -⟩ := hanging' item' List.mem_cons_self
      simp [lines] at same
  | cons item items ih =>
    obtain ⟨first, hangs⟩ := List.forall_mem_cons.mp hanging
    cases items' with
    | nil =>
      obtain ⟨line, rest, lines, -⟩ := first
      simp [lines] at same
    | cons item' items' =>
      obtain ⟨first', hangs'⟩ := List.forall_mem_cons.mp hanging'
      obtain ⟨lines, rest⟩ := first.append_cancel first' (Hanging.head_flatMap hangs)
        (Hanging.head_flatMap hangs') same
      have tail := ih hangs hangs' (fun a ha b hb => part a (List.mem_cons_of_mem _ ha) b
        (List.mem_cons_of_mem _ hb)) rest
      rw [part item List.mem_cons_self item' List.mem_cons_self lines, tail]

/-! ### Ending the last line -/

@[simp] theorem endLine_nil : endLine [] = ['\n'] := rfl

@[simp] theorem endLine_concat_feed (text : List Char) :
    endLine (text ++ ['\n']) = text ++ ['\n'] := by
  simp [endLine]

theorem endLine_eq_concat (text : List Char) : ∃ front, endLine text = front ++ ['\n'] := by
  unfold endLine
  split
  next ended => exact List.getLast?_eq_some_iff.mp ended
  next => exact ⟨text, rfl⟩

theorem prefix_endLine (text : List Char) : text <+: endLine text := by
  unfold endLine
  split
  · exact List.prefix_refl _
  · exact List.prefix_append _ _

theorem getLast?_append_word {word : List Char} (nonempty : word ≠ []) (flat : '\n' ∉ word)
    (text : List Char) : (text ++ word).getLast? ≠ some '\n' := by
  rw [List.getLast?_append, List.getLast?_eq_some_getLast nonempty, Option.some_or]
  intro same
  exact flat (Option.some.inj same ▸ List.getLast_mem nonempty)

theorem endLine_append_word {word : List Char} (nonempty : word ≠ []) (flat : '\n' ∉ word)
    (text : List Char) : endLine (text ++ word) = text ++ word ++ ['\n'] := by
  rw [endLine, if_neg (getLast?_append_word nonempty flat text)]

theorem endLine_append_unlines {lines : List (List Char)} (nonempty : lines ≠ []) (text : List Char) :
    endLine (text ++ unlines lines) = text ++ unlines lines := by
  obtain ⟨body, same⟩ := unlines_eq_concat nonempty
  rw [same, ← List.append_assoc, endLine_concat_feed]

/-- Whether the last line of `text` is open or not, what stands behind `front` may as well stand
behind `other`. -/
theorem endLine_cut {text front body other : List Char} (ended : endLine text = front ++ body ++ ['\n'])
    (unended : other.getLast? ≠ some '\n') :
    ∃ rest, text = front ++ rest ∧ endLine (other ++ rest) = other ++ body ++ ['\n'] := by
  unfold endLine at ended
  split at ended
  · refine ⟨body ++ ['\n'], by rw [ended, List.append_assoc], ?_⟩
    rw [← List.append_assoc, endLine_concat_feed]
  next textUnended =>
    obtain rfl := List.append_cancel_right ended
    refine ⟨body, rfl, ?_⟩
    have last : (other ++ body).getLast? ≠ some '\n' := by
      rw [List.getLast?_append] at textUnended ⊢
      cases found : body.getLast? with
      | none => simpa using unended
      | some c => simpa [found] using textUnended
    rw [endLine, if_neg last]

/-! ### Lines of a closed text -/

/-- The lines of a text that ends with a line feed. -/
def closedLines (text : List Char) : List (List Char) := (split '\n' text).dropLast

theorem closedLines_unlines {lines : List (List Char)} (flat : ∀ line ∈ lines, '\n' ∉ line) :
    closedLines (unlines lines) = lines := by
  rw [closedLines, split_unlines flat, List.dropLast_concat]

theorem feed_notMem_closedLines {text line : List Char} (member : line ∈ closedLines text) :
    '\n' ∉ line :=
  not_mem_of_mem_split ((List.dropLast_sublist _).subset member)

theorem split_append_separator (separator : Char) (front rest : List Char) :
    split separator (front ++ separator :: rest) = split separator front ++ split separator rest := by
  induction front with
  | nil => simp [split]
  | cons c front ih =>
    by_cases same : c = separator
    · simp [split, same, ih]
    · obtain ⟨piece, pieces, pieced⟩ := List.exists_cons_of_ne_nil (split_ne_nil separator front)
      rw [List.cons_append, split, if_neg same, ih, pieced, split, if_neg same, pieced]
      rfl

/-- A character right behind a line feed begins a line. -/
theorem exists_closedLine {text : List Char} {c : Char} (begins : ['\n', c] <:+: text)
    (visible : c ≠ '\n') (closed : ∃ front, text = front ++ ['\n']) :
    ∃ line ∈ closedLines text, line.head? = some c := by
  obtain ⟨before, behind, cut⟩ := begins
  obtain ⟨front, ended⟩ := closed
  have last : closedLines text = split '\n' front := by
    rw [closedLines, ended, split_append_separator, split, List.dropLast_concat]
  obtain ⟨line, member, head⟩ : ∃ line ∈ split '\n' text, line.head? = some c := by
    obtain ⟨piece, pieces, pieced⟩ := List.exists_cons_of_ne_nil (split_ne_nil '\n' behind)
    refine ⟨c :: piece, ?_, rfl⟩
    rw [← cut, List.append_assoc, List.cons_append, List.singleton_append, split_append_separator, split,
      if_neg visible, pieced]
    simp
  refine ⟨line, ?_, head⟩
  rw [ended, split_append_separator, split, List.mem_append] at member
  rcases member with member | empty
  · rwa [last]
  · rw [List.mem_singleton.mp empty] at head
    cases head

end CiPipeline.Text
