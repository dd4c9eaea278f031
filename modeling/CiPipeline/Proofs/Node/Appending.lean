import CiPipeline.Proofs.Node.BlankLines
import CiPipeline.Proofs.Node.Shift

/-!
# What the writer puts behind a text

The beginning of an entry leaves every buffer in the same state (`endsLine_beginEntry`), so all that
the writer puts behind it is the same for every buffer (`exists_write_eq`). The text of a node is only
ever added, a collection differs between buffers in the line feed that opens its first entry, and the
cut in an item of a list takes away that line feed and its indentation, no more (`write_only_adds`).
-/

namespace CiPipeline
open Text

namespace Node

/-! ### Behind the beginning of an entry -/

theorem getLast?_indentation_succ (level : Nat) : (indentation (level + 1)).getLast? = some ' ' := by
  rw [indentation, Nat.mul_succ, List.replicate_succ', List.getLast?_concat]

/-- Behind the indentation of an entry the line is open, unless there is none. -/
theorem endsLine_beginEntry (out : Buffer) (level : Nat) :
    (beginEntry out level).endsLine = (level == 0) := by
  rw [beginEntry, Buffer.endsLine_append]
  cases level with
  | zero =>
    cases ended : out.endsLine with
    | true => simp [indentation, ended]
    | false => simp [indentation, Buffer.endsLine_push]
  | succ level =>
    rw [getLast?_indentation_succ]
    rfl

theorem exists_behind_beginEntry {f : Buffer → Buffer} (appends : Appends f) (level : Nat) :
    ∃ text, ∀ out, f (beginEntry out level) = (beginEntry out level).append text := by
  obtain ⟨text, appends⟩ := appends
  exact ⟨text (level == 0), fun out => by rw [appends, endsLine_beginEntry]⟩

theorem exists_writeItems_eq (item : Node) (items : List Node) (level : Nat) :
    ∃ text, ∀ out, writeItems out level (item :: items) = (beginEntry out level).append text := by
  have rest := (appends_append (itemText level item)).comp (appends_writeItems items level)
  obtain ⟨text, behind⟩ := exists_behind_beginEntry rest level
  refine ⟨text, fun out => ?_⟩
  rw [writeItems_cons, writeItems_singleton, behind]

theorem exists_writeEntries_eq (entry : Node × Node) (entries : List (Node × Node)) (level : Nat) :
    ∃ text, ∀ out, writeEntries out level (entry :: entries) = (beginEntry out level).append text := by
  obtain ⟨key, value⟩ := entry
  have header := (appends_write key (level + 1)).comp (appends_push ':')
  have first : ∃ f, Appends f ∧ ∀ out, writeEntries out level [(key, value)] = f (beginEntry out level) := by
    simp only [writeEntries]
    cases value.isBlock with
    | true => exact ⟨_, header.comp (appends_write value (level + 1)), fun _ => rfl⟩
    | false =>
      exact ⟨_, (header.comp (appends_push ' ')).comp (appends_write value (level + 1)), fun _ => rfl⟩
  obtain ⟨f, appends, opened⟩ := first
  obtain ⟨text, behind⟩ := exists_behind_beginEntry (appends.comp (appends_writeEntries entries level)) level
  refine ⟨text, fun out => ?_⟩
  rw [writeEntries_cons, opened, behind]

theorem exists_write_eq {n : Node} (block : n.isBlock = true) (level : Nat) :
    ∃ text, ∀ out, n.write out level = (beginEntry out level).append text := by
  cases n with
  | list items =>
    obtain ⟨item, items, rfl⟩ := List.exists_cons_of_ne_nil (l := items) (by simpa [isBlock] using block)
    simpa [write] using exists_writeItems_eq item items level
  | map entries =>
    obtain ⟨entry, entries, rfl⟩ := List.exists_cons_of_ne_nil (l := entries) (by simpa [isBlock] using block)
    simpa [write] using exists_writeEntries_eq entry entries level
  | _ => cases block

/-! ### The opening of a collection -/

/-- The layout of a collection opens a line, indents it, and goes on with `text`; the cut of an item
finds this text, with the dash or the key that the first entry begins with. -/
structure OpensBefore (n : Node) (level : Nat) (text : List Char) : Prop where
  layout_eq : n.layout level = '\n' :: (indentation level ++ text)
  cut_eq : dropBytes? (1 + 2 * level) (n.layout level) = some text
  keepsDash : ∀ items, n = list items → ['-', ' '] <+: text
  keepsKey : ∀ key value entries, n = map ((key, value) :: entries) → key.isScalar = true →
    key.layout (level + 1) ++ [':'] <+: text

theorem prefix_of_append {out : Buffer} {text more : List Char}
    (grown : (out.append text).toList <+: (out.append more).toList) : text <+: more := by
  rw [Buffer.toList_append, Buffer.toList_append] at grown
  exact (List.prefix_append_right_inj _).mp grown

theorem opensBefore_of_write_eq {n : Node} (block : n.isBlock = true) {level : Nat} {text : List Char}
    (grown : ∀ out, n.write out level = (beginEntry out level).append text) : n.OpensBefore level text := by
  have laid : n.layout level = '\n' :: (indentation level ++ text) := by
    rw [layout, grown, Buffer.toList_append, toList_beginEntry]
    simp
  refine ⟨laid, ?cut, ?dash, ?key⟩
  case cut => rw [laid, dropBytes?_line]
  case dash =>
    rintro items rfl
    obtain ⟨item, items, rfl⟩ := List.exists_cons_of_ne_nil (l := items) (by simpa [isBlock] using block)
    have first := prefix_writeItems items (writeItems .empty level [item]) level
    rw [← writeItems_cons, writeItems_singleton] at first
    have whole : writeItems .empty level (item :: items) = (beginEntry .empty level).append text := by
      simpa [write] using grown .empty
    rw [whole] at first
    exact .trans ⟨_, rfl⟩ (prefix_of_append first)
  case key =>
    rintro key value entries rfl scalar
    have first := prefix_writeEntries entries (writeEntries .empty level [(key, value)]) level
    rw [← writeEntries_cons, writeEntries_singleton scalar] at first
    have whole : writeEntries .empty level ((key, value) :: entries) = (beginEntry .empty level).append text := by
      simpa [write] using grown .empty
    rw [whole] at first
    refine .trans ?_ (prefix_of_append first)
    exact (List.prefix_append_right_inj _).mpr (List.prefix_append [':'] _)

theorem toList_beginEntry_append (out : Buffer) (level : Nat) (text : List Char) :
    ((beginEntry out level).append text).toList = out.toList ++
      if out.toList.getLast? = some '\n' then indentation level ++ text
      else '\n' :: (indentation level ++ text) := by
  rw [Buffer.toList_append, toList_beginEntry, endLine]
  split <;> simp

/-- Writing keeps the text before it. A node that is no collection with entries adds its layout to any
text; one with entries adds its layout too, less the line feed that opens it where the text has ended
its line already. An item of a list keeps all of its layout but that line feed and the indentation. -/
theorem write_only_adds (n : Node) (level : Nat) :
    (∀ out : Buffer, out.toList <+: (n.write out level).toList) ∧
    (n.isBlock = false → ∀ out : Buffer, (n.write out level).toList = out.toList ++ n.layout level) ∧
    (n.isBlock = true → ∃ text, n.OpensBefore level text ∧
      ∀ out : Buffer, (n.write out level).toList = out.toList ++
        if out.toList.getLast? = some '\n' then indentation level ++ text
        else '\n' :: (indentation level ++ text)) ∧
    (n.isBlock = true → ∃ text, n.OpensBefore (level + 1) text ∧
      ∀ (out : Buffer) (items : List Node), writeItems out level (n :: items) =
        writeItems ((beginEntry out level).append ('-' :: ' ' :: text)) level items) := by
  refine ⟨fun out => prefix_write n out level, ?inline, ?block, ?item⟩
  case inline =>
    intro inline out
    rw [write_of_inline inline, Buffer.toList_append]
  case block =>
    intro block
    obtain ⟨text, grown⟩ := exists_write_eq block level
    refine ⟨text, opensBefore_of_write_eq block grown, fun out => ?_⟩
    rw [grown, toList_beginEntry_append]
  case item =>
    intro block
    obtain ⟨text, grown⟩ := exists_write_eq block (level + 1)
    have opens := opensBefore_of_write_eq block grown
    refine ⟨text, opens, fun out items => ?_⟩
    rw [writeItems_cons, writeItems_singleton, itemText, if_pos block, opens.layout_eq, firstEntryCut_line]

/-- A key of two lines, a list in a list, and a literal at the end. -/
def literalKeyed : Node :=
  map [(str "a\nb", list [list [str "x:", int 1]]), (bool true, str "y\n")]

def literalKeyedText : List Char :=
  "|\n      a\n      b\n:\n    - - 'x:'\n      - 1\n  true: |\n      y\n      \n".toList

theorem write_literalKeyed :
    (str "a\nb").isBlock = false ∧ literalKeyed.isBlock = true ∧
      ((str "a\nb").write (Buffer.empty.push '-') 1).toList = "-|\n    a\n    b\n".toList ∧
      literalKeyed.OpensBefore 1 literalKeyedText ∧
      (literalKeyed.write (Buffer.empty.push ':') 1).toList = ":\n  ".toList ++ literalKeyedText ∧
      (literalKeyed.write (Buffer.empty.push '\n') 1).toList = "\n  ".toList ++ literalKeyedText ∧
      (writeItems .empty 0 [literalKeyed, null]).toList =
        "\n- ".toList ++ literalKeyedText ++ "- null".toList := by
  obtain ⟨-, inline, -, -⟩ := write_only_adds (str "a\nb") 1
  obtain ⟨-, -, block, -⟩ := write_only_adds literalKeyed 1
  obtain ⟨-, -, -, item⟩ := write_only_adds literalKeyed 0
  obtain ⟨text, opens, grown⟩ := block rfl
  obtain ⟨text', opens', grown'⟩ := item rfl
  have laid : literalKeyed.layout 1 = '\n' :: (indentation 1 ++ literalKeyedText) := by decide
  have same : ∀ other, literalKeyed.OpensBefore 1 other → other = literalKeyedText := fun _ opens =>
    List.append_cancel_left (List.cons.inj (opens.layout_eq.symm.trans laid)).2
  obtain rfl := same text opens
  obtain rfl := same text' opens'
  refine ⟨rfl, rfl, (inline rfl _).trans (by decide), opens, (grown _).trans (by decide),
    (grown _).trans (by decide), ?_⟩
  rw [grown']
  decide

end Node
end CiPipeline
