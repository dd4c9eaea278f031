import CiPipeline.Proofs.Node.Scalar

/-!
# Words read back

A word ends with its line or at the colon behind a key. `readWord` reads it back, and `lineKind`
says what a line begins with. `reads_of_plain` and `reads_quotedText` are the two kinds of word; a
text that is `Bare` is a word as it is, and is no other scalar.
-/

namespace CiPipeline
open Text

namespace Node

def Stops (rest : List Char) : Prop := rest = [] ∨ ∃ tail, rest = ':' :: tail

def reserved : List (List Char × Node) :=
  [("null".toList, null), ("true".toList, bool true), ("false".toList, bool false),
    (['[', ']'], list []), (['\x7b', '\x7d'], map [])]

/-- A word without quotes that is not taken for a quoted one, a literal, an item or a deeper line. -/
structure Plain (word : List Char) : Prop where
  colonless : ':' ∉ word
  start : ∀ c ∈ [' ', '\'', '|'], word.head? ≠ some c
  notItem : ¬ ['-', ' '] <+: word

/-- A text that may stand without quotes: on one line, visible, and no other node's word. -/
structure Bare (text : List Char) : Prop extends Plain text where
  flat : '\n' ∉ text
  visible : allBlank text = false
  unreserved : text ∉ reserved.map (·.1)
  notInteger : ∀ i : Int64, text ≠ Decimal.ofInt i.toInt

/-! ### Reading -/

def ofPlain (word : List Char) : Node :=
  match reserved.lookup word with
  | some n => n
  | none =>
    match Decimal.toInt64? word with
    | some i => int i
    | none => str (String.ofList word)

def readQuoted : List Char → List Char × List Char
  | '\'' :: '\'' :: text => ('\'' :: (readQuoted text).1, (readQuoted text).2)
  | '\'' :: text => ([], text)
  | c :: text => (c :: (readQuoted text).1, (readQuoted text).2)
  | [] => ([], [])

def readWord : List Char → Node × List Char
  | '\'' :: text => (str (String.ofList (readQuoted text).1), (readQuoted text).2)
  | text => (ofPlain (text.takeWhile (· ≠ ':')), text.dropWhile (· ≠ ':'))

inductive LineKind where
  | literal
  | item
  | word
  | key
  deriving DecidableEq

def lineKind : List Char → LineKind
  | '|' :: _ => .literal
  | '-' :: ' ' :: _ => .item
  | line => if (readWord line).2.isEmpty then .word else .key

/-- The text is read back as the node, on a line of its own and in front of a colon. -/
structure Reads (word : List Char) (n : Node) : Prop where
  read : ∀ {rest}, Stops rest → readWord (word ++ rest) = (n, rest)
  margin : word.head? ≠ some ' '
  notLiteral : word.head? ≠ some '|'
  notItem : ¬ ['-', ' '] <+: word

/-! ### Quoted words -/

def doubled (c : Char) : List Char := if c = '\'' then ['\'', '\''] else [c]

theorem quotedText_append (text rest : List Char) :
    quotedText text ++ rest = '\'' :: (text.flatMap doubled ++ '\'' :: rest) := by
  simp [quotedText]
  rfl

theorem readQuoted_append (text : List Char) {rest : List Char} (closed : rest.head? ≠ some '\'') :
    readQuoted (text.flatMap doubled ++ '\'' :: rest) = (text, rest) := by
  induction text with
  | nil =>
    cases rest with
    | nil => rfl
    | cons c rest =>
      have differs : c ≠ '\'' := by simpa using closed
      simp [readQuoted, differs]
  | cons c text ih =>
    by_cases quote : c = '\''
    · simp [quote, doubled, readQuoted, ih]
    · simp [quote, doubled, readQuoted, ih]

theorem Stops.head?_ne {rest : List Char} (stops : Stops rest) {c : Char} (differs : c ≠ ':') :
    rest.head? ≠ some c := by
  rcases stops with rfl | ⟨tail, rfl⟩
  · simp
  · simpa using differs.symm

theorem Stops.head?_append_ne {word rest : List Char} (stops : Stops rest) {c : Char} (differs : c ≠ ':')
    (head : word.head? ≠ some c) : (word ++ rest).head? ≠ some c := by
  cases word with
  | nil => exact stops.head?_ne differs
  | cons d word => simpa using head

theorem reads_quotedText (text : List Char) : Reads (quotedText text) (str (String.ofList text)) where
  read stops := by
    rw [quotedText_append, readWord, readQuoted_append text (stops.head?_ne (by decide))]
  margin := by simp [quotedText]
  notLiteral := by simp [quotedText]
  notItem := by simp [quotedText]

/-! ### Plain words -/

theorem takeWhile_append_of_stops {word rest : List Char} (colonless : ':' ∉ word) (stops : Stops rest) :
    (word ++ rest).takeWhile (· ≠ ':') = word := by
  have kept : ∀ c ∈ word, decide (c ≠ ':') = true := by
    intro c member
    exact decide_eq_true fun same => colonless (same ▸ member)
  rw [List.takeWhile_append_of_pos kept]
  rcases stops with rfl | ⟨tail, rfl⟩ <;> simp

theorem dropWhile_append_of_stops {word rest : List Char} (colonless : ':' ∉ word) (stops : Stops rest) :
    (word ++ rest).dropWhile (· ≠ ':') = rest := by
  have split := List.takeWhile_append_dropWhile (p := (· ≠ ':')) (l := word ++ rest)
  rw [takeWhile_append_of_stops colonless stops] at split
  exact List.append_cancel_left split

theorem reads_of_plain {word : List Char} (plain : Plain word) : Reads word (ofPlain word) where
  read {rest} stops := by
    have unquoted := stops.head?_append_ne (by decide) (plain.start '\'' (by simp))
    unfold readWord
    split
    next quoted => simp [quoted] at unquoted
    next =>
      rw [takeWhile_append_of_stops plain.colonless stops,
        dropWhile_append_of_stops plain.colonless stops]
  margin := plain.start ' ' (by simp)
  notLiteral := plain.start '|' (by simp)
  notItem := plain.notItem

theorem plain_of_numeral {word : List Char} (numerals : ∀ c ∈ word, Decimal.numeral c) : Plain word where
  colonless member := Decimal.not_numeral_of rfl (by simp) (numerals ':' member)
  start c listed same := by
    have numeral := numerals c (List.mem_of_head? same)
    simp only [List.mem_cons, List.not_mem_nil, or_false] at listed
    rcases listed with rfl | rfl | rfl <;> exact Decimal.not_numeral_of rfl (by simp) numeral
  notItem item := Decimal.not_numeral_of rfl (by simp) (numerals ' ' (item.subset (by simp)))

theorem unreserved_of_numeral {word : List Char} (numerals : ∀ c ∈ word, Decimal.numeral c) :
    word ∉ reserved.map (·.1) := by
  intro listed
  have letters : ∀ w ∈ reserved.map (·.1),
      w.any (fun c => !(c.isDigit || ['-', '+', '.', 'e'].contains c)) = true := by decide
  obtain ⟨c, member, letter⟩ := List.any_eq_true.mp (letters word listed)
  simp only [Bool.not_eq_true', Bool.or_eq_false_iff, List.contains_eq_mem, decide_eq_false_iff_not] at letter
  exact Decimal.not_numeral_of letter.1 letter.2 (numerals c member)

theorem ne_ofInt_of_mem {text : List Char} {c : Char} (member : c ∈ text) (digit : c.isDigit = false)
    (mark : c ∉ ['-', '+', '.', 'e']) (i : Int64) : text ≠ Decimal.ofInt i.toInt := by
  rintro rfl
  exact Decimal.not_numeral_of digit mark (Decimal.mem_ofInt member)

theorem lookup_eq_none_of_unreserved {word : List Char} (unreserved : word ∉ reserved.map (·.1)) :
    reserved.lookup word = none := by
  rw [List.lookup_eq_none_iff]
  intro pair member
  have differs : word ≠ pair.1 := fun same => unreserved (same ▸ List.mem_map_of_mem member)
  simpa using differs

theorem reads_ofInt (i : Int64) : Reads (Decimal.ofInt i.toInt) (int i) := by
  have plain := reads_of_plain (plain_of_numeral fun c => Decimal.mem_ofInt (i := i.toInt) (c := c))
  rwa [ofPlain, lookup_eq_none_of_unreserved (unreserved_of_numeral fun _ => Decimal.mem_ofInt),
    Decimal.toInt64?_ofInt] at plain

theorem reads_of_bare {text : List Char} (bare : Bare text) : Reads text (str (String.ofList text)) := by
  have none : Decimal.toInt64? text = none := by
    cases read : Decimal.toInt64? text with
    | none => rfl
    | some i => exact absurd (Decimal.eq_ofInt_of_toInt64? read) (bare.notInteger i)
  have plain := reads_of_plain bare.toPlain
  rwa [ofPlain, lookup_eq_none_of_unreserved bare.unreserved, none] at plain

theorem reads_reserved {word : List Char} {n : Node} (listed : (word, n) ∈ reserved) : Reads word n := by
  simp only [reserved, List.mem_cons, Prod.mk.injEq, List.not_mem_nil, or_false] at listed
  rcases listed with ⟨rfl, rfl⟩ | ⟨rfl, rfl⟩ | ⟨rfl, rfl⟩ | ⟨rfl, rfl⟩ | ⟨rfl, rfl⟩
  all_goals exact reads_of_plain ⟨by decide, by simp, by decide⟩

/-! ### Kinds of lines -/

theorem item_of_append {word rest : List Char} (stops : Stops rest) (item : ['-', ' '] <+: word ++ rest) :
    ['-', ' '] <+: word := by
  obtain ⟨tail, same⟩ := item
  match word with
  | [] => exact absurd (congrArg List.head? same).symm (stops.head?_ne (by decide))
  | [c] =>
    obtain ⟨-, same⟩ := List.cons.inj same
    exact absurd (congrArg List.head? same).symm (stops.head?_ne (by decide))
  | c :: d :: word =>
    simp only [List.cons_append, List.nil_append, List.cons.injEq] at same
    obtain ⟨rfl, rfl, -⟩ := same
    exact ⟨word, rfl⟩

theorem lineKind_of_reads {word rest : List Char} {n : Node} (reads : Reads word n) (stops : Stops rest) :
    lineKind (word ++ rest) = if rest.isEmpty then .word else .key := by
  have read := reads.read stops
  unfold lineKind
  split
  next literal =>
    have head := stops.head?_append_ne (by decide) reads.notLiteral
    simp [literal] at head
  next item => exact absurd (item_of_append stops (item ▸ ⟨_, rfl⟩)) reads.notItem
  next => rw [read]

end Node
end CiPipeline
