import CiPipeline.Markup.Scalar

/-!
# Tokens of a marked-up text

`Token.ofText?` takes a text apart. Indentation becomes block tokens, and a key that is found out
only at the colon behind it gets its key token where it began. A text that cannot be taken apart has
no tokens.
-/

namespace CiPipeline.Markup

inductive Token where
  | version (major minor : Nat)
  | handle (name meaning : List Char)
  | documentStart
  | documentEnd
  | blockSequenceStart
  | blockMappingStart
  | blockEnd
  | flowSequenceStart
  | flowSequenceEnd
  | flowMappingStart
  | flowMappingEnd
  | item
  | comma
  | key
  | value
  | reference (name : List Char)
  | anchor (name : List Char)
  | tag (handle suffix : List Char)
  | scalar (text : List Char) (plain : Bool)
  deriving DecidableEq, Repr

/-- A place where a key may have begun. -/
structure KeyStart where
  /-- The number of tokens before it. -/
  position : Nat
  line : Nat
  column : Nat
  index : Nat
  /-- Nothing but a key can stand here. -/
  required : Bool
  deriving DecidableEq, Repr

/-- A text taken apart up to the cursor. -/
structure Tokens where
  cursor : Cursor
  done : List Token := []
  /-- The column of the innermost block, or -1, and those of the blocks around it. -/
  indent : Int := -1
  outer : List Int := []
  keyAllowed : Bool := true
  /-- The latest possible key of the innermost bracket, and of those around it. -/
  keyStart : Option KeyStart := none
  outerKeyStarts : List (Option KeyStart) := []

namespace Tokens

def inFlow (s : Tokens) : Bool := !s.outerKeyStarts.isEmpty

def push (s : Tokens) (t : Token) : Tokens := { s with done := s.done ++ [t] }

def insertAt (s : Tokens) (position : Nat) (t : Token) : Tokens :=
  { s with done := s.done.take position ++ t :: s.done.drop position }

/-! ### Blocks and keys -/

/-- Opens a block at a column that is deeper than the innermost block. -/
def openBlock (s : Tokens) (column position : Nat) (t : Token) : Tokens :=
  if !s.inFlow && s.indent < column then
    { s.insertAt position t with indent := column, outer := s.indent :: s.outer }
  else s

/-- Closes the blocks `outer` that are deeper than a column. -/
def closeBlocksFrom (s : Tokens) (column : Int) : List Int → Tokens
  | [] => s
  | outer :: rest =>
    if column < s.indent then
      closeBlocksFrom { s.push .blockEnd with indent := outer, outer := rest } column rest
    else s

def closeBlocks (s : Tokens) (column : Int) : Tokens :=
  if s.inFlow then s else s.closeBlocksFrom column s.outer

/-- Gives up a possible key, unless it is required. -/
def giveUp (start : Option KeyStart) : Option (Option KeyStart) :=
  if start.any (·.required) then none else some none

def dropKey (s : Tokens) : Option Tokens := do
  return { s with keyStart := ← giveUp s.keyStart }

/-- A key ends on its line, and before it gets too long. -/
def dropIfStale (c : Cursor) (start : Option KeyStart) : Option (Option KeyStart) :=
  if start.any fun k => k.line < c.line || k.index + 1024 < c.index then giveUp start
  else some start

def dropStale (s : Tokens) : Option Tokens := do
  return { s with
    keyStart := ← dropIfStale s.cursor s.keyStart
    outerKeyStarts := ← s.outerKeyStarts.mapM (dropIfStale s.cursor) }

/-- Notes that a key may begin at the cursor. -/
def saveKey (s : Tokens) : Option Tokens :=
  if s.keyAllowed then do
    let s ← s.dropKey
    let c := s.cursor
    let required := !s.inFlow && s.indent == c.column
    return { s with keyStart := some ⟨s.done.length, c.line, c.column, c.index, required⟩ }
  else some s

/-! ### What stands between tokens -/

/-- Blanks, comments and line breaks. A tab is no blank where a key may begin. -/
def skipBlanks : Nat → Tokens → Tokens
  | 0, s => s
  | fuel + 1, s =>
    let c := s.cursor
    let c := if c.column == 0 && c.head? == some '\ufeff' then c.next else c
    let c := c.skipWhile fun d => d == ' ' || d == '\t' && (s.inFlow || !s.keyAllowed)
    let c := if c.head? == some '#' then c.skipWhile (!isBreak ·) else c
    if c.head?.any isBreak then
      skipBlanks fuel { s with cursor := c.next, keyAllowed := s.keyAllowed || !s.inFlow }
    else { s with cursor := c }

/-! ### One token -/

/-- A token of some characters that is written as it is. -/
def advance (s : Tokens) (count : Nat) (t : Token) : Tokens :=
  { s.push t with cursor := s.cursor.skip count }

def endDocument (s : Tokens) : Option Tokens := do
  let s ← (s.closeBlocks (-1)).dropKey
  return { s with keyAllowed := false }

def documentMark (s : Tokens) (t : Token) : Option Tokens := do
  return (← s.endDocument).advance 3 t

def openFlow (s : Tokens) (t : Token) : Option Tokens := do
  let s ← s.saveKey
  return { s.advance 1 t with
    keyStart := none, outerKeyStarts := s.keyStart :: s.outerKeyStarts, keyAllowed := true }

def closeFlow (s : Tokens) (t : Token) : Option Tokens := do
  let s ← s.dropKey
  let s := { s.advance 1 t with keyAllowed := false }
  return match s.outerKeyStarts with
    | [] => s
    | start :: rest => { s with keyStart := start, outerKeyStarts := rest }

def comma (s : Tokens) : Option Tokens := do
  return { (← s.dropKey).advance 1 .comma with keyAllowed := true }

def item (s : Tokens) : Option Tokens :=
  if !s.inFlow && !s.keyAllowed then none
  else do
    let s ← (s.openBlock s.cursor.column s.done.length .blockSequenceStart).dropKey
    return { s.advance 1 .item with keyAllowed := true }

/-- A key announced by a question mark. -/
def explicitKey (s : Tokens) : Option Tokens :=
  if !s.inFlow && !s.keyAllowed then none
  else do
    let s ← (s.openBlock s.cursor.column s.done.length .blockMappingStart).dropKey
    return { s.advance 1 .key with keyAllowed := !s.inFlow }

def value (s : Tokens) : Option Tokens :=
  match s.keyStart with
  | some start =>
    let s := (s.insertAt start.position .key).openBlock start.column start.position .blockMappingStart
    some { s.advance 1 .value with keyStart := none, keyAllowed := false }
  | none =>
    if !s.inFlow && !s.keyAllowed then none
    else
      let s := s.openBlock s.cursor.column s.done.length .blockMappingStart
      some { s.advance 1 .value with keyAllowed := !s.inFlow }

def isNameChar (c : Char) : Bool := c.isAlphanum || c == '_' || c == '-'

/-- A name behind a mark of one character. -/
def name (s : Tokens) (make : List Char → Token) : Option Tokens := do
  let s ← s.saveKey
  let name := (s.cursor.rest.drop 1).takeWhile isNameChar
  let s := { s.advance (name.length + 1) (make name) with keyAllowed := false }
  let ended := endsWord s.cursor.head? || s.cursor.head?.any ("?:,]\x7d%@`".toList.contains ·)
  if !name.isEmpty && ended then some s else none

/-- How many octets follow one that begins a character. -/
def trailingOctets? (octet : Nat) : Option Nat :=
  if octet < 0x80 then some 0
  else if 0xC0 ≤ octet && octet < 0xE0 then some 1
  else if 0xE0 ≤ octet && octet < 0xF0 then some 2
  else if 0xF0 ≤ octet && octet < 0xF8 then some 3
  else none

/-- The octets of a tag, one character for each, and how many characters they take. A percent sign
stands before the two digits of an octet; `pending` octets are missing to the last character. -/
def tagOctets? (more : String) : Nat → List Char → Option (List Char × Nat)
  | pending, '%' :: a :: b :: rest => do
    let octet := 16 * (← hexDigit? a) + (← hexDigit? b)
    let pending ← match pending with
      | 0 => trailingOctets? octet
      | pending + 1 => if 0x80 ≤ octet && octet < 0xC0 then some pending else none
    let (octets, count) ← tagOctets? more pending rest
    return (Char.ofNat octet :: octets, count + 3)
  | _, '%' :: _ => none
  | 0, c :: rest =>
    if isNameChar c || (";/?:@&=+$.!~*'()" ++ more).toList.contains c then do
      let (octets, count) ← tagOctets? more 0 rest
      return (c :: octets, count + 1)
    else some ([], 0)
  | 0, [] => some ([], 0)
  | _ + 1, _ => none

/-- The text of a tag ends at a zero octet. -/
def tagText? (more : String) (rest : List Char) : Option (List Char × Nat) := do
  let (octets, count) ← tagOctets? more 0 rest
  return (octets.takeWhile (· != '\x00'), count)

/-- A tag as its handle, its suffix, and the number of its characters. -/
def tagParts? (rest : List Char) : Option (List Char × List Char × Nat) := do
  let word := (rest.drop 1).takeWhile isNameChar
  if (rest.drop 1).head? == some '<' then
    let (suffix, count) ← tagText? ",[]" (rest.drop 2)
    if count = 0 || (rest.drop (2 + count)).head? != some '>' then none
    else some ([], suffix, count + 3)
  else if (rest.drop (1 + word.length)).head? == some '!' then
    let (suffix, count) ← tagText? "" (rest.drop (2 + word.length))
    if count = 0 then none else some ('!' :: word ++ ['!'], suffix, 2 + word.length + count)
  else
    let (suffix, count) ← tagText? "" (rest.drop 1)
    some (if suffix.isEmpty then ([], ['!'], 1 + count) else (['!'], suffix, 1 + count))

def tag (s : Tokens) : Option Tokens := do
  let s ← s.saveKey
  let (handle, suffix, count) ← tagParts? s.cursor.rest
  let s := { s.advance count (.tag handle suffix) with keyAllowed := false }
  if endsWord s.cursor.head? || s.inFlow && s.cursor.head? == some ',' then some s else none

def blockScalar (s : Tokens) (folded : Bool) : Option Tokens := do
  let s ← s.dropKey
  let (text, cursor) ← readBlockAt folded s.indent s.cursor.next
  return { s.push (.scalar text false) with cursor, keyAllowed := true }

def quotedScalar (s : Tokens) (quote : Quote) : Option Tokens := do
  let s ← s.saveKey
  let (text, cursor) ← readQuotedAt quote s.cursor
  return { s.push (.scalar text false) with cursor, keyAllowed := false }

/-- A line break behind a plain scalar allows a key again. -/
def plainScalar (s : Tokens) : Option Tokens := do
  let s ← s.saveKey
  let (text, broken, cursor) ← readPlainAt s.inFlow (s.indent + 1).toNat s.cursor
  return { s.push (.scalar text true) with cursor, keyAllowed := broken }

/-! ### Directives -/

def decimal? (digits : List Char) : Option Nat :=
  if digits.isEmpty || 9 < digits.length then none
  else some (digits.foldl (fun n c => 10 * n + (c.toNat - '0'.toNat)) 0)

def versionDirective (c : Cursor) : Option (Token × Cursor) := do
  let major := c.rest.takeWhile Char.isDigit
  let c := c.skip major.length
  if c.head? != some '.' then none
  else
    let minor := c.next.rest.takeWhile Char.isDigit
    return (.version (← decimal? major) (← decimal? minor), c.next.skip minor.length)

/-- Only a gap or a break may follow what a handle means; a version needs neither. -/
def handleDirective (c : Cursor) : Option (Token × Cursor) := do
  let word := (c.rest.drop 1).takeWhile isNameChar
  let closed := (c.rest.drop (1 + word.length)).head? == some '!'
  let handle := '!' :: word ++ (if closed then ['!'] else [])
  let behind := c.skip handle.length
  let start := behind.skipWhile isGap
  let (meaning, count) ← tagText? ",[]" start.rest
  let last := start.skip count
  if c.head? != some '!' || !closed && !word.isEmpty || start == behind || count = 0 then none
  else if endsWord last.head? then some (.handle handle meaning, last)
  else none

def directive (s : Tokens) : Option Tokens := do
  let s ← s.endDocument
  let name := s.cursor.next.rest.takeWhile isNameChar
  let c := s.cursor.next.skip name.length
  if !endsWord c.head? then none
  else
    let c := c.skipWhile isGap
    let (token, c) ←
      if name == ['Y', 'A', 'M', 'L'] then versionDirective c
      else if name == ['T', 'A', 'G'] then handleDirective c
      else none
    let c := c.skipWhile isGap
    let c := if c.head? == some '#' then c.skipWhile (!isBreak ·) else c
    if endsLine c.head? then some { s.push token with cursor := c.next } else none

/-! ### All tokens -/

/-- A plain scalar may not begin with a mark of the format, but may with the marks that stand alone
when a word follows them. -/
def beginsPlain (inFlow : Bool) (c : Char) (next : Option Char) : Bool :=
  !(isGapOrBreak c || "-?:,[]\x7b\x7d#&*!|>'\"%@`".toList.contains c) ||
    c == '-' && !next.any isGap ||
    !inFlow && (c == '?' || c == ':') && !endsWord next

/-- The token that begins with a character. -/
def readToken (s : Tokens) (c : Char) : Option Tokens :=
  let alone := endsWord (s.cursor.peek? 1)
  if s.cursor.column == 0 && c == '%' then s.directive
  else if s.cursor.atMark '-' then s.documentMark .documentStart
  else if s.cursor.atMark '.' then s.documentMark .documentEnd
  else if c == '[' then s.openFlow .flowSequenceStart
  else if c == '\x7b' then s.openFlow .flowMappingStart
  else if c == ']' then s.closeFlow .flowSequenceEnd
  else if c == '\x7d' then s.closeFlow .flowMappingEnd
  else if c == ',' then s.comma
  else if c == '-' && alone then s.item
  else if c == '?' && (s.inFlow || alone) then s.explicitKey
  else if c == ':' && (s.inFlow || alone) then s.value
  else if c == '*' then s.name .reference
  else if c == '&' then s.name .anchor
  else if c == '!' then s.tag
  else if c == '|' && !s.inFlow then s.blockScalar false
  else if c == '>' && !s.inFlow then s.blockScalar true
  else if c == '\'' then s.quotedScalar .single
  else if c == '"' then s.quotedScalar .double
  else if beginsPlain s.inFlow c (s.cursor.peek? 1) then s.plainScalar
  else none

def readAll : Nat → Tokens → Option (List Token)
  | 0, _ => none
  | fuel + 1, s => do
    let s ← (s.skipBlanks (s.cursor.rest.length + 1)).dropStale
    let s := s.closeBlocks s.cursor.column
    match s.cursor.rest with
    | [] => return (← s.endDocument).done
    | c :: _ => readAll fuel (← s.readToken c)

end Tokens

/-- Every turn passes a character, so the length of the text bounds the turns. -/
def Token.ofText? (text : List Char) : Option (List Token) :=
  if text.all isAllowed then Tokens.readAll (text.length + 1) { cursor := ⟨text, 0, 0, 0⟩ } else none

end CiPipeline.Markup
