import CiPipeline.Proofs.Decimal.Characters
import CiPipeline.Proofs.Json.Keys

/-!
# Unambiguous JSON

A node without floats whose keys are strings has a JSON text, and no other such node has the same one
(`json_injective`). The first character of a text tells the kind of its value, `readString` reads a
string up to its closing quote, and a number ends where no value goes on; so the parts of a text can
be cut apart wherever a mark follows them (`Delimits`).
-/

namespace CiPipeline

namespace Json

/-! ### Strings -/

def hexValue (c : Char) : Nat :=
  if c.isDigit then c.toNat - '0'.toNat else c.toNat - 'a'.toNat + 10

/-- What a character behind a backslash stands for. -/
def unescape : Char → Char
  | 'b' => '\x08'
  | 'f' => '\x0C'
  | 'n' => '\n'
  | 'r' => '\r'
  | 't' => '\t'
  | c => c

/-- The characters up to the closing quote, and what follows it. -/
def readString : List Char → List Char × List Char
  | '"' :: rest => ([], rest)
  | '\\' :: 'u' :: '0' :: '0' :: high :: low :: rest =>
    (Char.ofNat (16 * hexValue high + hexValue low) :: (readString rest).1, (readString rest).2)
  | '\\' :: c :: rest => (unescape c :: (readString rest).1, (readString rest).2)
  | c :: rest => (c :: (readString rest).1, (readString rest).2)
  | [] => ([], [])

theorem hexValue_digitChar : ∀ digit < 16, hexValue digit.digitChar = digit := by decide

theorem readString_escape (c : Char) (rest : List Char) :
    readString (escape c ++ rest) = (c :: (readString rest).1, (readString rest).2) := by
  unfold escape
  split
  case h_8 =>
    split
    next control =>
      have high := hexValue_digitChar (c.toNat / 16) (by omega)
      have low := hexValue_digitChar (c.toNat % 16) (by omega)
      simp only [List.cons_append, List.nil_append, readString, high, low, Nat.div_add_mod, Char.ofNat_toNat]
    next => simp_all [readString]
  -- the other escapes are a backslash and one letter
  all_goals rfl

theorem readString_append (text rest : List Char) :
    readString (text.flatMap escape ++ '"' :: rest) = (text, rest) := by
  induction text with
  | nil => rfl
  | cons c text ih => rw [List.flatMap_cons, List.append_assoc, readString_escape, ih]

theorem quote_append_injective {text text' rest rest' : List Char}
    (same : quote text ++ rest = quote text' ++ rest') : text = text' ∧ rest = rest' := by
  simp only [quote, List.cons_append, List.append_assoc, List.cons.injEq, true_and, List.nil_append] at same
  have read := congrArg readString same
  rw [readString_append, readString_append] at read
  exact Prod.mk.inj read

/-! ### Kinds of values -/

inductive Kind where
  | null
  | bool
  | number
  | string
  | list
  | map

/-- The kind of the values that begin with this character; the marks between values begin none. -/
def kindOf? : Char → Option Kind
  | 'n' => some .null
  | 't' | 'f' => some .bool
  | '"' => some .string
  | '[' => some .list
  | '\x7b' => some .map
  | ',' | ']' | '\x7d' => none
  | _ => some .number

theorem kindOf?_of_numeral {c : Char} (numeral : Decimal.numeral c) : kindOf? c = some .number := by
  unfold kindOf?
  split
  case h_10 => rfl
  all_goals exact absurd numeral (Decimal.not_numeral_of rfl (by simp))

/-- What can follow a value: nothing, or a mark. -/
def Ends (rest : List Char) : Prop := ∀ c ∈ rest.head?, kindOf? c = none

theorem ends_cons {c : Char} (mark : kindOf? c = none) (rest : List Char) : Ends (c :: rest) := by
  intro d head
  rwa [← Option.some.inj head]

theorem takeWhile_append_of_ends {word rest : List Char} (numerals : ∀ c ∈ word, Decimal.numeral c)
    (ends : Ends rest) : (word ++ rest).takeWhile (fun c => (kindOf? c).isSome) = word := by
  have kept : ∀ c ∈ word, (kindOf? c).isSome = true := fun c member => by
    rw [kindOf?_of_numeral (numerals c member)]
    rfl
  rw [List.takeWhile_append_of_pos kept]
  cases rest with
  | nil => simp
  | cons c rest => simp [ends c rfl]

theorem ofInt_append_injective {i j : Int64} {rest rest' : List Char} (ends : Ends rest) (ends' : Ends rest')
    (same : Decimal.ofInt i.toInt ++ rest = Decimal.ofInt j.toInt ++ rest') : i = j ∧ rest = rest' := by
  have words := congrArg (List.takeWhile fun c => (kindOf? c).isSome) same
  rw [takeWhile_append_of_ends (fun _ => Decimal.mem_ofInt) ends,
    takeWhile_append_of_ends (fun _ => Decimal.mem_ofInt) ends'] at words
  have values := congrArg Decimal.toInt64? words
  rw [Decimal.toInt64?_ofInt, Decimal.toInt64?_ofInt] at values
  rw [words] at same
  exact ⟨Option.some.inj values, List.append_cancel_left same⟩

/-! ### Texts one after another -/

section
variable {α : Type} {text : α → List Char}

/-- In front of marks the two texts are told apart, and so is what follows them. -/
def Delimits (text : α → List Char) (a b : α) : Prop :=
  ∀ {rest rest' : List Char}, Ends rest → Ends rest' → text a ++ rest = text b ++ rest' →
    a = b ∧ rest = rest'

def Begins (word : List Char) : Prop := ∃ c rest, word = c :: rest ∧ kindOf? c ≠ none

theorem commaSeparated_cons (part : List Char) (parts : List (List Char)) :
    commaSeparated (part :: parts) = part ++ parts.flatMap (',' :: ·) := by
  induction parts generalizing part with
  | nil => simp [commaSeparated]
  | cons next parts ih =>
    have rest := ih next
    rw [commaSeparated] at rest ⊢
    rw [List.intercalate_cons_cons, rest, List.append_assoc, List.flatMap_cons]
    rfl

theorem ends_flatMap {rest : List Char} (ends : Ends rest) (items : List α) :
    Ends (items.flatMap (',' :: text ·) ++ rest) := by
  cases items with
  | nil => exact ends
  | cons item items => exact ends_cons rfl _

theorem flatMap_cancel {items items' : List α} {close : Char} {rest rest' : List Char}
    (mark : kindOf? close = none) (differs : close ≠ ',')
    (each : ∀ a ∈ items, ∀ b ∈ items', Delimits text a b)
    (same : items.flatMap (',' :: text ·) ++ close :: rest = items'.flatMap (',' :: text ·) ++ close :: rest') :
    items = items' ∧ rest = rest' := by
  induction items generalizing items' with
  | nil =>
    cases items' with
    | nil => exact ⟨rfl, (List.cons.inj same).2⟩
    | cons b items' => exact absurd (List.cons.inj same).1 differs
  | cons a items ih =>
    cases items' with
    | nil => exact absurd (List.cons.inj same).1.symm differs
    | cons b items' =>
      simp only [List.flatMap_cons, List.cons_append, List.append_assoc, List.cons.injEq, true_and] at same
      obtain ⟨rfl, others⟩ := each a (.head _) b (.head _) (ends_flatMap (ends_cons mark rest) items)
        (ends_flatMap (ends_cons mark rest') items') same
      obtain ⟨rfl, tails⟩ := ih (fun c member d member' => each c (.tail _ member) d (.tail _ member')) others
      exact ⟨rfl, tails⟩

theorem head_ne_of_begins {word rest tail : List Char} {close : Char} (begins : Begins word)
    (mark : kindOf? close = none) : word ++ rest ≠ close :: tail := by
  obtain ⟨c, word, rfl, kind⟩ := begins
  intro same
  exact kind ((List.cons.inj same).1 ▸ mark)

theorem commaSeparated_cancel {items items' : List α} {close : Char} {rest rest' : List Char}
    (mark : kindOf? close = none) (differs : close ≠ ',') (begins : ∀ a ∈ items, Begins (text a))
    (begins' : ∀ a ∈ items', Begins (text a)) (each : ∀ a ∈ items, ∀ b ∈ items', Delimits text a b)
    (same : commaSeparated (items.map text) ++ close :: rest =
      commaSeparated (items'.map text) ++ close :: rest') : items = items' ∧ rest = rest' := by
  cases items with
  | nil =>
    cases items' with
    | nil => exact ⟨rfl, (List.cons.inj same).2⟩
    | cons b items' =>
      rw [List.map_cons, commaSeparated_cons, List.append_assoc] at same
      exact absurd same.symm (head_ne_of_begins (begins' b (.head _)) mark)
  | cons a items =>
    cases items' with
    | nil =>
      rw [List.map_cons, commaSeparated_cons, List.append_assoc] at same
      exact absurd same (head_ne_of_begins (begins a (.head _)) mark)
    | cons b items' =>
      simp only [List.map_cons, commaSeparated_cons, List.append_assoc, List.flatMap_map] at same
      obtain ⟨rfl, others⟩ := each a (.head _) b (.head _) (ends_flatMap (ends_cons mark rest) items)
        (ends_flatMap (ends_cons mark rest') items') same
      obtain ⟨rfl, tails⟩ := flatMap_cancel mark differs
        (fun c member d member' => each c (.tail _ member) d (.tail _ member')) others
      exact ⟨rfl, tails⟩

end

end Json

namespace Node
open Json

/-! ### Nodes that have a text of their own -/

/-- No float, and only strings as keys, at every depth. -/
def JsonSafe (n : Node) : Prop := n.Every (fun key => ∃ s, key = str s) fun value => ∀ x, value ≠ float x

/-- The text of a node that has one. -/
def spelling (n : Node) : List Char := (n.jsonText keyText).toOption.getD []

def entrySpelling (entry : Node × Node) : List Char :=
  (keyText entry.1).toOption.getD [] ++ ':' :: entry.2.spelling

theorem jsonText_of_safe {n : Node} (safe : n.JsonSafe) : n.jsonText keyText = .ok n.spelling := by
  have sound : fault? (n.jsonText keyText) = none := by
    rw [fault?_jsonText, List.findSome?_eq_none_iff]
    intro key member
    obtain ⟨s, rfl⟩ := Every.allKeys safe key member
    rfl
  obtain ⟨text, written⟩ := fault?_eq_none_iff.mp sound
  rw [spelling, written]
  rfl

theorem json_of_safe {n : Node} (safe : n.JsonSafe) : n.json = .ok (String.ofList n.spelling) := by
  rw [json, jsonWith, jsonText_of_safe safe]
  rfl

theorem jsonItems_of_safe {items : List Node} (safe : ∀ item ∈ items, item.JsonSafe) :
    jsonItems keyText items = .ok (items.map spelling) := by
  induction items with
  | nil => rfl
  | cons item items ih =>
    obtain ⟨first, others⟩ := List.forall_mem_cons.mp safe
    rw [jsonItems, jsonText_of_safe first, ih others]
    rfl

theorem jsonEntries_of_safe {entries : List (Node × Node)} (keys : ∀ entry ∈ entries, ∃ s, entry.1 = str s)
    (values : ∀ entry ∈ entries, entry.2.JsonSafe) :
    jsonEntries keyText entries = .ok (entries.map entrySpelling) := by
  induction entries with
  | nil => rfl
  | cons entry entries ih =>
    obtain ⟨⟨s, key⟩, keys⟩ := List.forall_mem_cons.mp keys
    obtain ⟨first, values⟩ := List.forall_mem_cons.mp values
    rw [jsonEntries, jsonText_of_safe first, ih keys values, List.map_cons, entrySpelling, key]
    rfl

theorem spelling_list {items : List Node} (safe : ∀ item ∈ items, item.JsonSafe) :
    (list items).spelling = '[' :: (commaSeparated (items.map spelling) ++ [']']) := by
  rw [spelling, jsonText, jsonItems_of_safe safe]
  rfl

theorem spelling_map {entries : List (Node × Node)} (keys : ∀ entry ∈ entries, ∃ s, entry.1 = str s)
    (values : ∀ entry ∈ entries, entry.2.JsonSafe) :
    (map entries).spelling = '\x7b' :: (commaSeparated (entries.map entrySpelling) ++ ['\x7d']) := by
  rw [spelling, jsonText, jsonEntries_of_safe keys values]
  rfl

/-! ### The kind of a node -/

def kind : Node → Kind
  | null => .null
  | bool _ => .bool
  | int _ | float _ => .number
  | str _ => .string
  | list _ => .list
  | map _ => .map

theorem spelling_eq_cons {n : Node} (safe : n.JsonSafe) :
    ∃ c rest, n.spelling = c :: rest ∧ kindOf? c = some n.kind := by
  cases safe with
  | scalar scalar value =>
    cases n with
    | null => exact ⟨_, _, rfl, rfl⟩
    | bool b => cases b <;> exact ⟨_, _, rfl, rfl⟩
    | int i =>
      obtain ⟨c, rest, text⟩ := List.exists_cons_of_ne_nil (Decimal.ofInt_ne_nil i.toInt)
      exact ⟨c, rest, text, kindOf?_of_numeral (Decimal.mem_ofInt (text ▸ List.mem_cons_self))⟩
    | float x => exact absurd rfl (value x)
    | str s => exact ⟨_, _, rfl, rfl⟩
    | list | map => contradiction
  | list each => exact ⟨_, _, spelling_list each, rfl⟩
  | map keys values => exact ⟨_, _, spelling_map keys values, rfl⟩

theorem begins_spelling {n : Node} (safe : n.JsonSafe) : Begins n.spelling := by
  obtain ⟨c, rest, text, kind⟩ := spelling_eq_cons safe
  exact ⟨c, rest, text, by simp [kind]⟩

theorem kind_eq_of_spelling {a b : Node} (safe : a.JsonSafe) (safe' : b.JsonSafe) {rest rest' : List Char}
    (same : a.spelling ++ rest = b.spelling ++ rest') : a.kind = b.kind := by
  obtain ⟨c, _, text, kindA⟩ := spelling_eq_cons safe
  obtain ⟨d, _, text', kindB⟩ := spelling_eq_cons safe'
  rw [text, text'] at same
  rw [(List.cons.inj same).1, kindB] at kindA
  exact (Option.some.inj kindA).symm

/-! ### Injectivity -/

theorem ne_float_of_safe {n : Node} (safe : n.JsonSafe) (x : Binary64) : n ≠ float x := by
  rintro rfl
  exact (every_scalar_iff rfl).mp safe x rfl

theorem delimits_bool (x y : Bool) : Delimits spelling (bool x) (bool y) := by
  intro rest rest' _ _ same
  cases x <;> cases y
  case true.true | false.false => exact ⟨rfl, List.append_cancel_left same⟩
  case true.false | false.true => cases same

theorem delimits_of_isScalar {a b : Node} (scalar : a.isScalar = true) (safe : a.JsonSafe)
    (safe' : b.JsonSafe) : Delimits spelling a b := by
  intro rest rest' ends ends' same
  have kind := kind_eq_of_spelling safe safe' same
  cases a with
  | null =>
    cases b with
    | null => exact ⟨rfl, List.append_cancel_left same⟩
    | _ => cases kind
  | bool x =>
    cases b with
    | bool y => exact delimits_bool x y ends ends' same
    | _ => cases kind
  | int i =>
    cases b with
    | int j => exact (ofInt_append_injective ends ends' same).imp_left (congrArg int)
    | float x => exact absurd rfl (ne_float_of_safe safe' x)
    | _ => cases kind
  | float x => exact absurd rfl (ne_float_of_safe safe x)
  | str s =>
    cases b with
    | str t => exact (quote_append_injective same).imp_left fun texts => congrArg str (String.toList_inj.mp texts)
    | _ => cases kind
  | list | map => contradiction

theorem delimits_list {items items' : List Node} (safe : ∀ item ∈ items, item.JsonSafe)
    (safe' : ∀ item ∈ items', item.JsonSafe)
    (each : ∀ item ∈ items, ∀ item' ∈ items', Delimits spelling item item') :
    Delimits spelling (list items) (list items') := by
  intro rest rest' _ _ same
  simp only [spelling_list safe, spelling_list safe', List.cons_append, List.append_assoc,
    List.cons.injEq, true_and, List.nil_append] at same
  exact (commaSeparated_cancel rfl (by decide) (fun item member => begins_spelling (safe item member))
    (fun item member => begins_spelling (safe' item member)) each same).imp_left (congrArg list)

theorem begins_entrySpelling {entry : Node × Node} (key : ∃ s, entry.1 = str s) :
    Begins (entrySpelling entry) := by
  obtain ⟨s, key⟩ := key
  rw [entrySpelling, key]
  exact ⟨_, _, rfl, by simp [kindOf?]⟩

theorem delimits_entrySpelling {entry entry' : Node × Node} (key : ∃ s, entry.1 = str s)
    (key' : ∃ s, entry'.1 = str s) (values : Delimits spelling entry.2 entry'.2) :
    Delimits entrySpelling entry entry' := by
  intro rest rest' ends ends' same
  obtain ⟨key, value⟩ := entry
  obtain ⟨key', value'⟩ := entry'
  obtain ⟨⟨s, rfl⟩, ⟨t, rfl⟩⟩ := And.intro key key'
  have texts : quote s.toList ++ (':' :: (value.spelling ++ rest)) =
      quote t.toList ++ (':' :: (value'.spelling ++ rest')) := by
    rw [entrySpelling, entrySpelling, List.append_assoc, List.append_assoc] at same
    exact same
  obtain ⟨names, behind⟩ := quote_append_injective texts
  obtain ⟨rfl, tails⟩ := values ends ends' (List.cons.inj behind).2
  exact ⟨by rw [String.toList_inj.mp names], tails⟩

theorem delimits_map {entries entries' : List (Node × Node)} (keys : ∀ entry ∈ entries, ∃ s, entry.1 = str s)
    (keys' : ∀ entry ∈ entries', ∃ s, entry.1 = str s) (safe : ∀ entry ∈ entries, entry.2.JsonSafe)
    (safe' : ∀ entry ∈ entries', entry.2.JsonSafe)
    (each : ∀ entry ∈ entries, ∀ entry' ∈ entries', Delimits spelling entry.2 entry'.2) :
    Delimits spelling (map entries) (map entries') := by
  intro rest rest' _ _ same
  simp only [spelling_map keys safe, spelling_map keys' safe', List.cons_append, List.append_assoc,
    List.cons.injEq, true_and, List.nil_append] at same
  refine (commaSeparated_cancel rfl (by decide) (fun entry member => begins_entrySpelling (keys entry member))
    (fun entry member => begins_entrySpelling (keys' entry member)) ?_ same).imp_left (congrArg map)
  intro entry member entry' member'
  exact delimits_entrySpelling (keys entry member) (keys' entry' member') (each entry member entry' member')

theorem delimits_spelling {a b : Node} (safe : a.JsonSafe) (safe' : b.JsonSafe) : Delimits spelling a b := by
  -- the first character fixes the kind of `b`, so that each case meets a node of its own kind
  induction safe generalizing b with
  | scalar scalar value => exact delimits_of_isScalar scalar (.scalar scalar value) safe'
  | list each ih =>
    intro rest rest' ends ends' same
    have kind := kind_eq_of_spelling (.list each) safe' same
    cases b with
    | list items' =>
      have each' := every_list_iff.mp safe'
      exact delimits_list each each' (fun item member item' member' => ih item member (each' item' member'))
        ends ends' same
    | _ => cases kind
  | map keys values ih =>
    intro rest rest' ends ends' same
    have kind := kind_eq_of_spelling (.map keys values) safe' same
    cases b with
    | map entries' =>
      obtain ⟨keys', values'⟩ := every_map_iff.mp safe'
      exact delimits_map keys keys' values values'
        (fun entry member entry' member' => ih entry member (values' entry' member')) ends ends' same
    | _ => cases kind

theorem spelling_injective {a b : Node} (safe : a.JsonSafe) (safe' : b.JsonSafe)
    (same : a.spelling = b.spelling) : a = b := by
  have nothing : Ends [] := by simp [Ends]
  have texts : a.spelling ++ [] = b.spelling ++ [] := by rw [same]
  exact (delimits_spelling safe safe' nothing nothing texts).1

/-- Nodes without floats whose keys are strings have JSON texts, and these are equal only for equal
nodes, the order of items and pairs included. -/
theorem json_injective {a b : Node} (safe : a.JsonSafe) (safe' : b.JsonSafe) :
    ∃ text text', a.json = .ok text ∧ b.json = .ok text' ∧ (text = text' ↔ a = b) := by
  refine ⟨String.ofList a.spelling, String.ofList b.spelling, json_of_safe safe, json_of_safe safe', ?_⟩
  constructor
  · intro same
    exact spelling_injective safe safe' (String.ofList_inj.mp same)
  · rintro rfl
    rfl

/-- Strings that look like the marks around them, in the order of the flag. -/
def markedPairs (ahead : Bool) : Node :=
  let first := (str "a\":[", list [str "\\", str "],", int (-1), list [], map []])
  let second := (str "", map [(str "\n\x01", null), (str "\x01\n", bool ahead)])
  map (if ahead then [first, second] else [second, first])

theorem jsonSafe_markedPairs (ahead : Bool) : (markedPairs ahead).JsonSafe := by
  cases ahead <;>
    simp [markedPairs, JsonSafe, every_map_iff, every_list_iff, every_scalar_iff, isScalar, isCollection]

theorem json_markedPairs :
    (markedPairs true).JsonSafe ∧ (markedPairs false).JsonSafe ∧
      ∃ text text', (markedPairs true).json = .ok text ∧ (markedPairs false).json = .ok text' ∧ text ≠ text' := by
  have safe := jsonSafe_markedPairs
  obtain ⟨text, text', written, written', same⟩ := json_injective (safe true) (safe false)
  have differs : markedPairs true ≠ markedPairs false := by simp [markedPairs]
  exact ⟨safe true, safe false, text, text', written, written', mt same.mp differs⟩

end Node
end CiPipeline
