import CiPipeline.Proofs.Node.Lines
import CiPipeline.Proofs.Node.Word

/-!
# Unambiguous documents

A node is `Safe` when it holds no float and each of its strings is written in a form of its own.
The first line of such a node tells its kind, words are read back, and the lines of a collection
fall into its entries at the lines without a margin; so `lines_injective`, and two safe nodes with
the same document are the same.
-/

namespace CiPipeline
open Text

namespace Node

/-- A text that is written in quotes, as a literal or as it is, without being taken for another. -/
def SafeText (text : List Char) : Prop :=
  text = [] ∨ '\n' ∈ text ∨ ('\n' ∉ text ∧ allBlank text = false ∧ ':' ∈ text) ∨ Bare text

def SafeValue : Node → Prop
  | str s => SafeText s.toList
  | float _ => False
  | _ => True

def SafeKey : Node → Prop
  | str s => SafeText s.toList ∧ '\n' ∉ s.toList
  | null | bool _ | int _ => True
  | float _ | list _ | map _ => False

/-- Safe strings at every depth, no float, and keys that are on one line. -/
def Safe (n : Node) : Prop := n.Every SafeKey SafeValue

theorem oneLine_of_safeKey {key : Node} (safe : key.SafeKey) : key.OneLine := by
  cases key with
  | str s => exact safe.2
  | float x => contradiction
  | list items => contradiction
  | map entries => contradiction
  | _ => rfl

theorem lineKeys_of_safe {n : Node} (safe : n.Safe) : n.LineKeys :=
  safe.mono (fun _ => oneLine_of_safeKey) fun _ _ => trivial

/-! ### Words of safe scalars -/

theorem reads_lineText {text : List Char} (safe : SafeText text) (flat : '\n' ∉ text) :
    Reads (lineText text) (str (String.ofList text)) := by
  rcases safe with rfl | feed | ⟨-, visible, colon⟩ | bare
  · exact reads_quotedText []
  · contradiction
  · rw [lineText, if_neg (by simp [visible]), if_pos (by simpa using colon)]
    exact reads_quotedText text
  · rw [lineText, if_neg (by simp [bare.visible]), if_neg (by simpa using bare.colonless)]
    exact reads_of_bare bare

theorem reads_scalarText {n : Node} (safe : n.SafeKey) : Reads n.scalarText n := by
  cases n with
  | null => exact reads_reserved (by simp [reserved, scalarText])
  | bool b => cases b <;> exact reads_reserved (by simp [reserved, scalarText])
  | int i => exact reads_ofInt i
  | str s =>
    have reads := reads_lineText safe.1 safe.2
    rwa [String.ofList_toList] at reads
  | float x => contradiction
  | list items => contradiction
  | map entries => contradiction

def Inline (n : Node) : Prop := ∃ word, n.lines = [word] ∧ Reads word n

theorem inline_of_safeKey {n : Node} (safe : n.SafeKey) : n.Inline :=
  ⟨n.scalarText, lines_of_oneLine (oneLine_of_safeKey safe), reads_scalarText safe⟩

theorem inline_list_nil : (list []).Inline :=
  ⟨_, by rw [lines]; rfl, reads_reserved (by simp [reserved])⟩

theorem inline_map_nil : (map []).Inline :=
  ⟨_, by rw [lines]; rfl, reads_reserved (by simp [reserved])⟩

theorem Inline.injective {a b : Node} (ha : a.Inline) (hb : b.Inline) (same : a.lines = b.lines) : a = b := by
  obtain ⟨v, linesA, readsA⟩ := ha
  obtain ⟨w, linesB, readsB⟩ := hb
  rw [linesA, linesB] at same
  obtain rfl := (List.cons.inj same).1
  have readA := readsA.read (.inl rfl)
  have readB := readsB.read (.inl rfl)
  exact (Prod.mk.inj (readA.symm.trans readB)).1

/-! ### Literals -/

theorem literalLines_injective {first second : List Char} (same : literalLines first = literalLines second) :
    first = second := by
  have pieces := map_append_injective (List.cons.inj same).2
  rw [← intercalate_split '\n' first, pieces, intercalate_split]

/-! ### Items and entries -/

theorem Reads.key_injective {key key' tail tail' : List Char} {n n' : Node} (reads : Reads key n)
    (reads' : Reads key' n') (same : key ++ ':' :: tail = key' ++ ':' :: tail') : n = n' ∧ tail = tail' := by
  have read := reads.read (.inr ⟨tail, rfl⟩)
  have read' := reads'.read (.inr ⟨tail', rfl⟩)
  rw [same, read'] at read
  obtain ⟨node, rest⟩ := Prod.mk.inj read
  exact ⟨node.symm, (List.cons.inj rest).2.symm⟩

theorem keyed_eq_cons (key : List Char) (block : Bool) {lines : List (List Char)} (nonempty : lines ≠ []) :
    ∃ (tail : List Char) (rest : List (List Char)), keyed key block lines = (key ++ ':' :: tail) :: rest.map ([' ', ' '] ++ ·) := by
  cases block with
  | true => exact ⟨[], lines, rfl⟩
  | false =>
    obtain ⟨line, rest, rfl⟩ := List.exists_cons_of_ne_nil nonempty
    exact ⟨' ' :: line, rest, by simp [keyed_inline]⟩

theorem keyed_injective {key key' : List Char} {n n' : Node} (reads : Reads key n) (reads' : Reads key' n')
    {block block' : Bool} {lines lines' : List (List Char)} (nonempty : lines ≠ []) (nonempty' : lines' ≠ [])
    (same : keyed key block lines = keyed key' block' lines') : n = n' ∧ lines = lines' := by
  obtain ⟨line, rest, rfl⟩ := List.exists_cons_of_ne_nil nonempty
  obtain ⟨line', rest', rfl⟩ := List.exists_cons_of_ne_nil nonempty'
  cases block with
  | true =>
    cases block' with
    | true =>
      obtain ⟨first, deeper⟩ := List.cons.inj same
      exact ⟨(reads.key_injective reads' first).1, map_append_injective deeper⟩
    | false =>
      have first := (List.cons.inj same).1
      rw [List.append_assoc] at first
      cases (reads.key_injective reads' first).2
  | false =>
    cases block' with
    | true =>
      have first := (List.cons.inj same).1
      rw [List.append_assoc] at first
      cases (reads.key_injective reads' first).2
    | false =>
      obtain ⟨first, deeper⟩ := List.cons.inj same
      rw [List.append_assoc, List.append_assoc] at first
      obtain ⟨node, tail⟩ := reads.key_injective reads' first
      have text : line = line' := (List.cons.inj tail).2
      exact ⟨node, by rw [text, map_append_injective deeper]⟩

theorem hanging_item (item : Node) : Hanging (hang ['-', ' '] [' ', ' '] item.lines) :=
  hanging_hang (lines_ne_nil item) (by simp) (by simp)

theorem hanging_keyed {key : List Char} {n : Node} (reads : Reads key n) (block : Bool)
    {lines : List (List Char)} (nonempty : lines ≠ []) : Hanging (keyed key block lines) := by
  obtain ⟨tail, rest, same⟩ := keyed_eq_cons key block nonempty
  refine ⟨_, _, same, Stops.head?_append_ne (.inr ⟨tail, rfl⟩) (by decide) reads.margin, ?_⟩
  intro line member
  obtain ⟨source, -, rfl⟩ := List.mem_map.mp member
  rfl

/-! ### Kinds of nodes -/

/-- The forms of a safe node, each with the kind of its first line. -/
inductive Form : Node → LineKind → Prop where
  | literal {s : String} (feed : '\n' ∈ s.toList) : Form (str s) .literal
  | item {items : List Node} (nonempty : items ≠ []) : Form (list items) .item
  | word {n : Node} (inline : n.Inline) : Form n .word
  | key {entries : List (Node × Node)} (nonempty : entries ≠ []) : Form (map entries) .key

theorem form_of_safe {n : Node} (safe : n.Safe) : ∃ kind, Form n kind := by
  cases safe with
  | scalar scalar value =>
    by_cases key : n.SafeKey
    · exact ⟨_, .word (inline_of_safeKey key)⟩
    · cases n with
      | str s => exact ⟨_, .literal (Classical.not_not.mp fun flat => key ⟨value, flat⟩)⟩
      | float x => contradiction
      | list items => contradiction
      | map entries => contradiction
      | _ => exact absurd trivial key
  | @list items _ =>
    by_cases nonempty : items = []
    · subst nonempty
      exact ⟨_, .word inline_list_nil⟩
    · exact ⟨_, .item nonempty⟩
  | @map entries _ _ =>
    by_cases nonempty : entries = []
    · subst nonempty
      exact ⟨_, .word inline_map_nil⟩
    · exact ⟨_, .key nonempty⟩

theorem lineKind_of_form {n : Node} {kind : LineKind} (safe : n.Safe) (form : Form n kind) :
    n.lines.head?.map lineKind = some kind := by
  cases form with
  | literal feed => rw [lines_of_feed feed]; rfl
  | @item items nonempty =>
    obtain ⟨item, items, rfl⟩ := List.exists_cons_of_ne_nil nonempty
    obtain ⟨line, rest, first⟩ := List.exists_cons_of_ne_nil (lines_ne_nil item)
    simp [lines_list, itemLines, first, lineKind]
  | word inline =>
    obtain ⟨word, lines, reads⟩ := inline
    have kind := lineKind_of_reads reads (.inl rfl)
    rw [List.append_nil] at kind
    simp [lines, kind]
  | @key entries nonempty =>
    obtain ⟨⟨key, value⟩, entries, rfl⟩ := List.exists_cons_of_ne_nil nonempty
    have safeKey := (every_map_iff.mp safe).1 (key, value) List.mem_cons_self
    obtain ⟨tail, rest, first⟩ := keyed_eq_cons key.scalarText value.isBlock (lines_ne_nil value)
    have kind := lineKind_of_reads (reads_scalarText safeKey) (.inr ⟨tail, rfl⟩)
    simpa [lines_map, entryLines, first] using kind

theorem same_form {a b : Node} (safeA : a.Safe) (safeB : b.Safe) (same : a.lines = b.lines) :
    ∃ kind, Form a kind ∧ Form b kind := by
  obtain ⟨kindA, formA⟩ := form_of_safe safeA
  obtain ⟨kindB, formB⟩ := form_of_safe safeB
  have kinds := lineKind_of_form safeA formA
  rw [same, lineKind_of_form safeB formB] at kinds
  exact ⟨kindA, formA, Option.some.inj kinds ▸ formB⟩

/-! ### Injectivity -/

theorem lines_injective {a b : Node} (safeA : a.Safe) (safeB : b.Safe) (same : a.lines = b.lines) : a = b := by
  induction safeA generalizing b with
  | scalar scalar value =>
    obtain ⟨kind, formA, formB⟩ := same_form (.scalar scalar value) safeB same
    cases formA with
    | literal feed =>
      cases formB with
      | literal feed' =>
        rw [lines_of_feed feed, lines_of_feed feed'] at same
        rw [String.toList_inj.mp (literalLines_injective same)]
    | word inline =>
      cases formB with
      | word inline' => exact inline.injective inline' same
    | item => contradiction
    | key => contradiction
  | @list items each ih =>
    obtain ⟨kind, formA, formB⟩ := same_form (.list each) safeB same
    cases formA with
    | word inline =>
      cases formB with
      | word inline' => exact inline.injective inline' same
    | item nonempty =>
      cases formB with
      | @item items' nonempty' =>
        rw [lines_list nonempty, lines_list nonempty', itemLines_eq_flatMap, itemLines_eq_flatMap] at same
        have safe' := every_list_iff.mp safeB
        refine congrArg list (flatMap_injective_of_hanging (fun _ _ => hanging_item _)
          (fun _ _ => hanging_item _) ?_ same)
        intro item member item' member' part
        exact ih item member (safe' item' member') (hang_injective part)
  | @map entries keys values ih =>
    obtain ⟨kind, formA, formB⟩ := same_form (.map keys values) safeB same
    cases formA with
    | word inline =>
      cases formB with
      | word inline' => exact inline.injective inline' same
    | key nonempty =>
      cases formB with
      | @key entries' nonempty' =>
        rw [lines_map nonempty, lines_map nonempty', entryLines_eq_flatMap, entryLines_eq_flatMap] at same
        obtain ⟨keys', values'⟩ := every_map_iff.mp safeB
        refine congrArg map (flatMap_injective_of_hanging
          (fun entry member => hanging_keyed (reads_scalarText (keys entry member)) _ (lines_ne_nil _))
          (fun entry member => hanging_keyed (reads_scalarText (keys' entry member)) _ (lines_ne_nil _))
          ?_ same)
        intro entry member entry' member' part
        obtain ⟨key, lines⟩ := keyed_injective (reads_scalarText (keys entry member))
          (reads_scalarText (keys' entry' member')) (lines_ne_nil _) (lines_ne_nil _) part
        exact Prod.ext key (ih entry member (values' entry' member') lines)

theorem eq_of_document_eq {a b : Node} (safeA : a.Safe) (safeB : b.Safe)
    (same : a.document = b.document) : a = b := by
  have texts := congrArg String.toList same
  rw [toList_document, toList_document, documentText_eq_unlines (lineKeys_of_safe safeA),
    documentText_eq_unlines (lineKeys_of_safe safeB)] at texts
  exact lines_injective safeA safeB (unlines_injective (feed_notMem_lines (lineKeys_of_safe safeA))
    (feed_notMem_lines (lineKeys_of_safe safeB)) texts)

/-- A quoted text with a quote, a literal that looks like entries, and a text that looks like an
item, under a bare and under an empty key. -/
def looksLikeEntries : Node :=
  map [(str "k", str "it's: x"), (str "", list [str "- |\nk: ", str "-x"])]

theorem safe_looksLikeEntries : looksLikeEntries.Safe := by
  have bareKey : Bare "k".toList := ⟨⟨by decide, by simp, by decide⟩, by decide, by decide, by decide,
    ne_ofInt_of_mem (c := 'k') (by decide) (by decide) (by decide)⟩
  have bareItem : Bare "-x".toList := ⟨⟨by decide, by simp, by decide⟩, by decide, by decide, by decide,
    ne_ofInt_of_mem (c := 'x') (by decide) (by decide) (by decide)⟩
  have quoted : SafeText "it's: x".toList := .inr (.inr (.inl (by decide)))
  have literal : SafeText "- |\nk: ".toList := .inr (.inl (by decide))
  have key : (str "k").SafeKey := ⟨.inr (.inr (.inr bareKey)), by decide⟩
  have emptyKey : (str "").SafeKey := ⟨.inl rfl, by decide⟩
  have items : (list [str "- |\nk: ", str "-x"]).Safe := every_list_iff.mpr <| by
    simp only [List.forall_mem_cons, List.not_mem_nil, false_implies, implies_true, and_true]
    exact ⟨.scalar rfl literal, .scalar rfl (.inr (.inr (.inr bareItem)))⟩
  refine every_map_iff.mpr ?_
  simp only [List.forall_mem_cons, List.not_mem_nil, false_implies, implies_true, and_true]
  exact ⟨⟨key, emptyKey⟩, .scalar rfl quoted, items⟩

def writtenByPairs : Node :=
  map ((Mapping.empty.insertString "k" (str "it's: x")).2.insertString ""
    (list [str "- |\nk: ", str "-x"])).2.entries

theorem looksLikeEntries_eq_writtenByPairs :
    looksLikeEntries.Safe ∧ writtenByPairs.Safe ∧ looksLikeEntries.document = writtenByPairs.document ∧
      looksLikeEntries = writtenByPairs := by
  have safe : writtenByPairs.Safe := safe_looksLikeEntries
  have same : looksLikeEntries.document = writtenByPairs.document := by decide
  exact ⟨safe_looksLikeEntries, safe, same, eq_of_document_eq safe_looksLikeEntries safe same⟩

end Node
end CiPipeline
