import CiPipeline.Proofs.Node.Lines

/-!
# Sections of a document

What the writer adds to a text depends on the text only through whether it ends a line
(`appends_write`). So the document of a map is the documents of its entries, one after another
(`documentText_map`), whatever their values, and also where a key is a text of several lines.
-/

namespace CiPipeline
open Text

namespace Text

/-- Puts behind any two buffers the same text, when both end a line or both do not. -/
def Appends (f : Buffer → Buffer) : Prop :=
  ∃ text : Bool → List Char, ∀ out, f out = out.append (text out.endsLine)

namespace Buffer

theorem append_append (out : Buffer) (first second : List Char) :
    (out.append first).append second = out.append (first ++ second) := by
  simp [← toList_inj]

theorem push_eq_append (out : Buffer) (c : Char) : out.push c = out.append [c] := rfl

theorem endsLine_append (out : Buffer) (text : List Char) :
    (out.append text).endsLine = text.getLast?.elim out.endsLine (· == '\n') := by
  cases text.eq_nil_or_concat with
  | inl empty => subst empty; rfl
  | inr shape =>
    obtain ⟨front, c, rfl⟩ := shape
    simp [endsLine, append, List.reverseAux_eq]

theorem endsLine_push (out : Buffer) (c : Char) : (out.push c).endsLine = (c == '\n') := by
  simp [push_eq_append, endsLine_append]

end Buffer

theorem appends_append (text : List Char) : Appends (·.append text) := ⟨fun _ => text, fun _ => rfl⟩

theorem appends_push (c : Char) : Appends (·.push c) := appends_append [c]

theorem Appends.comp {f g : Buffer → Buffer} (first : Appends f) (second : Appends g) :
    Appends fun out => g (f out) := by
  obtain ⟨front, first⟩ := first
  obtain ⟨rest, second⟩ := second
  refine ⟨fun ends => front ends ++ rest ((front ends).getLast?.elim ends (· == '\n')), fun out => ?_⟩
  simp only [second, first, Buffer.endsLine_append, Buffer.append_append]

theorem Appends.exists_append {f : Buffer → Buffer} (appends : Appends f) (out : Buffer) :
    ∃ text, f out = out.append text := by
  obtain ⟨text, appends⟩ := appends
  exact ⟨_, appends out⟩

theorem endLine_append_of_ne_nil {text : List Char} (nonempty : text ≠ []) (front : List Char) :
    endLine (front ++ text) = front ++ endLine text := by
  have last : (front ++ text).getLast? = text.getLast? := by
    rw [List.getLast?_append, List.getLast?_eq_some_getLast nonempty, Option.some_or]
  unfold endLine
  rw [last]
  split
  · rfl
  · rw [List.append_assoc]

end Text

namespace Node

/-! ### What the writer adds -/

theorem appends_beginEntry (level : Nat) : Appends (beginEntry · level) := by
  refine ⟨fun ends => (if ends then [] else ['\n']) ++ indentation level, fun out => ?_⟩
  simp only [beginEntry]
  split <;> simp [← Buffer.toList_inj]

theorem appends_item {item : Node} {level : Nat} (write : Appends (item.write · (level + 1))) :
    Appends (writeItems · level [item]) := by
  simp only [writeItems]
  cases item.isBlock with
  | true => exact ((appends_beginEntry level).comp (appends_append _)).comp (appends_append _)
  | false => exact ((appends_beginEntry level).comp (appends_append _)).comp write

theorem appends_entry {key value : Node} {level : Nat} (writeKey : Appends (key.write · (level + 1)))
    (writeValue : Appends (value.write · (level + 1))) :
    Appends (writeEntries · level [(key, value)]) := by
  simp only [writeEntries]
  have header := ((appends_beginEntry level).comp writeKey).comp (appends_push ':')
  cases value.isBlock with
  | true => exact header.comp writeValue
  | false => exact (header.comp (appends_push ' ')).comp writeValue

theorem writeItems_cons (out : Buffer) (level : Nat) (item : Node) (items : List Node) :
    writeItems out level (item :: items) = writeItems (writeItems out level [item]) level items := by
  simp only [writeItems]

theorem writeEntries_cons (out : Buffer) (level : Nat) (entry : Node × Node)
    (entries : List (Node × Node)) : writeEntries out level (entry :: entries) =
      writeEntries (writeEntries out level [entry]) level entries := by
  obtain ⟨key, value⟩ := entry
  simp only [writeEntries]

mutual

theorem appends_write (n : Node) (level : Nat) : Appends (n.write · level) := by
  cases n with
  | list items =>
    simp only [write]
    split
    · exact appends_append _
    · exact appends_writeItems items level
  | map entries =>
    simp only [write]
    split
    · exact appends_append _
    · exact appends_writeEntries entries level
  | _ =>
    simp only [write]
    exact appends_append _

theorem appends_writeItems (items : List Node) (level : Nat) : Appends (writeItems · level items) := by
  cases items with
  | nil =>
    simp only [writeItems]
    exact appends_append []
  | cons item items =>
    simp only [writeItems_cons _ _ item items]
    exact (appends_item (appends_write item (level + 1))).comp (appends_writeItems items level)

theorem appends_writeEntries (entries : List (Node × Node)) (level : Nat) :
    Appends (writeEntries · level entries) := by
  cases entries with
  | nil =>
    simp only [writeEntries]
    exact appends_append []
  | cons entry entries =>
    obtain ⟨key, value⟩ := entry
    simp only [writeEntries_cons _ _ (key, value) entries]
    exact (appends_entry (appends_write key (level + 1)) (appends_write value (level + 1))).comp
      (appends_writeEntries entries level)

end

theorem write_of_open {out : Buffer} (isOpen : out.endsLine = false) (n : Node) (level : Nat) :
    n.write out level = out.append (n.layout level) := by
  obtain ⟨text, appends⟩ := appends_write n level
  simp only [layout, appends, isOpen, Buffer.toList_append]
  rfl

theorem write_of_inline {n : Node} (inline : n.isBlock = false) (out : Buffer) (level : Nat) :
    n.write out level = out.append (n.layout level) := by
  cases n with
  | list items =>
    obtain rfl : items = [] := by simpa [isBlock] using inline
    simp [layout, write]
  | map entries =>
    obtain rfl : entries = [] := by simpa [isBlock] using inline
    simp [layout, write]
  | _ => simp [layout, write]

/-! ### Entries -/

/-- What an entry adds behind its indentation. -/
def entryText (level : Nat) (entry : Node × Node) : List Char :=
  entry.1.layout (level + 1) ++ ':' ::
    if entry.2.isBlock then entry.2.layout (level + 1) else ' ' :: entry.2.layout (level + 1)

theorem entryText_ne_nil (level : Nat) (entry : Node × Node) : entryText level entry ≠ [] := by
  simp [entryText]

theorem writeEntries_singleton {key : Node} (scalar : key.isScalar = true) (value : Node) (out : Buffer)
    (level : Nat) : writeEntries out level [(key, value)] =
      (beginEntry out level).append (entryText level (key, value)) := by
  simp only [writeEntries, entryText, write_of_inline (isBlock_of_isScalar scalar)]
  cases block : value.isBlock with
  | true =>
    -- the colon has left the line open, as it is at the start of the value's own layout
    rw [if_pos rfl, if_pos rfl, write_of_open (Buffer.endsLine_push _ _)]
    simp [← Buffer.toList_inj]
  | false =>
    rw [if_neg Bool.false_ne_true, if_neg Bool.false_ne_true, write_of_inline block]
    simp [← Buffer.toList_inj]

theorem endLine_writeEntries {entries : List (Node × Node)}
    (scalars : ∀ entry ∈ entries, entry.1.isScalar = true) (out : Buffer) (level : Nat) :
    endLine (writeEntries out level entries).toList = endLine out.toList ++
      entries.flatMap fun entry => indentation level ++ endLine (entryText level entry) := by
  induction entries generalizing out with
  | nil => simp [writeEntries]
  | cons entry entries ih =>
    obtain ⟨scalar, scalars⟩ := List.forall_mem_cons.mp scalars
    rw [writeEntries_cons, ih scalars, writeEntries_singleton scalar, Buffer.toList_append,
      toList_beginEntry, endLine_append_of_ne_nil (entryText_ne_nil level entry), List.flatMap_cons]
    simp only [List.append_assoc]

theorem infix_writeEntries {entries : List (Node × Node)} {entry : Node × Node} (member : entry ∈ entries)
    (scalar : entry.1.isScalar = true) (out : Buffer) (level : Nat) :
    entryText level entry <:+: (writeEntries out level entries).toList := by
  induction entries generalizing out with
  | nil => cases member
  | cons first entries ih =>
    rw [writeEntries_cons]
    rcases List.mem_cons.mp member with rfl | member
    · obtain ⟨more, grown⟩ := (appends_writeEntries entries level).exists_append
        (writeEntries out level [entry])
      rw [grown, Buffer.toList_append, writeEntries_singleton scalar, Buffer.toList_append]
      exact ⟨_, _, rfl⟩
    · exact ih member _

theorem infix_layout_map {entries : List (Node × Node)} {entry : Node × Node} (member : entry ∈ entries)
    (scalar : entry.1.isScalar = true) (level : Nat) :
    entryText level entry <:+: (map entries).layout level := by
  rw [layout, write, if_neg (by simpa using List.ne_nil_of_mem member)]
  exact infix_writeEntries member scalar .empty level

/-- A collection with entries is laid out inside the entry that holds it. -/
theorem infix_entryText {value : Node} (block : value.isBlock = true) (key : Node) (level : Nat) :
    value.layout (level + 1) <:+: entryText level (key, value) := by
  rw [entryText, if_pos block]
  exact ⟨key.layout (level + 1) ++ [':'], [], by simp⟩

theorem infix_layout_of_mem {entries : List (Node × Node)} {key value : Node}
    (member : (key, value) ∈ entries) (scalar : key.isScalar = true) (block : value.isBlock = true)
    (level : Nat) : value.layout (level + 1) <:+: (map entries).layout level :=
  (infix_entryText block key level).trans (infix_layout_map member scalar level)

theorem isBlock_of_mem {entries : List (Node × Node)} {entry : Node × Node} (member : entry ∈ entries) :
    (map entries).isBlock = true := by
  simpa [isBlock] using List.ne_nil_of_mem member

/-! ### Documents -/

theorem documentText_eq_flatMap {entries : List (Node × Node)} (nonempty : entries ≠ [])
    (scalars : ∀ entry ∈ entries, entry.1.isScalar = true) :
    (map entries).documentText = entries.flatMap fun entry => endLine (entryText 0 entry) := by
  have sections := endLine_writeEntries scalars .empty 0
  have laid : (map entries).layout 0 = (writeEntries .empty 0 entries).toList := by
    rw [layout, write, if_neg (by simpa using nonempty)]
  -- the layout opens a line before its first entry, and the document drops that line break
  obtain ⟨entry, rest, rfl⟩ := List.exists_cons_of_ne_nil nonempty
  obtain ⟨text, opened⟩ : ∃ text, (map (entry :: rest)).layout 0 = '\n' :: text ∧ text ≠ [] := by
    obtain ⟨more, grown⟩ := (appends_writeEntries rest 0).exists_append (writeEntries .empty 0 [entry])
    refine ⟨entryText 0 entry ++ more, ?_, by simp [entryText_ne_nil]⟩
    rw [laid, writeEntries_cons, grown, writeEntries_singleton (scalars entry List.mem_cons_self),
      Buffer.toList_append, Buffer.toList_append, toList_beginEntry]
    simp [indentation]
  change endLine (if (Node.layout _ 0).head? = some '\n' then _ else _) = _
  rw [opened.1, List.head?_cons, if_pos rfl, List.tail_cons]
  rw [← laid, opened.1, ← List.singleton_append, endLine_append_of_ne_nil opened.2] at sections
  simpa [indentation] using sections

/-- Each entry of a map adds to the document what the map of that entry alone would be. -/
theorem documentText_map {entries : List (Node × Node)} (nonempty : entries ≠ [])
    (scalars : ∀ entry ∈ entries, entry.1.isScalar = true) :
    (map entries).documentText = entries.flatMap fun entry => (map [entry]).documentText := by
  rw [documentText_eq_flatMap nonempty scalars, List.flatMap_def, List.flatMap_def]
  congr 1
  refine List.map_congr_left fun entry member => ?_
  rw [documentText_eq_flatMap (by simp) (by simpa using scalars entry member)]
  simp

end Node
end CiPipeline
