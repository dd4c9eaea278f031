import CiPipeline.Markup.Cursor

/-!
# Scalars of a marked-up text

Plain, quoted and block scalars. Each reader starts at the first character of its scalar and gives
the text and the place behind it, or `none` when the scalar is malformed. Every turn of a loop
passes a character, so the length of the text bounds it.
-/

namespace CiPipeline.Markup

/-- What stands between two words of a scalar: spaces, or else line breaks. -/
structure Gap where
  spaces : List Char := []
  breaks : List Char := []
  deriving DecidableEq, Repr

/-- A single line break is a space, and of several the first is dropped. -/
def foldBreaks : List Char → List Char
  | ['\n'] => [' ']
  | '\n' :: more => more
  | breaks => breaks

def Gap.text (gap : Gap) : List Char :=
  if gap.breaks.isEmpty then gap.spaces else foldBreaks gap.breaks

/-- Reads a gap. A tab left of `minColumn` is malformed once a line has been broken. -/
def readGap (minColumn : Nat) : Nat → Bool → Gap → Cursor → Option (Gap × Cursor)
  | 0, _, _, _ => none
  | fuel + 1, broken, gap, c =>
    match c.head? with
    | none => some (gap, c)
    | some d =>
      if isBreak d then
        readGap minColumn fuel true { breaks := gap.breaks ++ c.breakText } c.next
      else if !isGap d then some (gap, c)
      else if !broken then
        readGap minColumn fuel false { gap with spaces := gap.spaces ++ [d] } c.next
      else if d == '\t' && c.column < minColumn then none
      else readGap minColumn fuel true gap c.next

def readGapAt (minColumn : Nat) (broken : Bool) (c : Cursor) : Option (Gap × Cursor) :=
  readGap minColumn (c.rest.length + 1) broken {} c

/-! ### Plain scalars -/

/-- The word at the start of a text. Inside brackets a colon may not stand before a bracket. -/
def plainWord (inFlow : Bool) : List Char → Option (List Char)
  | [] => some []
  | c :: rest =>
    if isGapOrBreak c then some []
    else if inFlow && c == ':' && rest.head?.any (",?[]\x7b\x7d".toList.contains ·) then none
    else if c == ':' && endsWord rest.head? then some []
    else if inFlow && ",[]\x7b\x7d".toList.contains c then some []
    else (plainWord inFlow rest).map (c :: ·)

/-- A text, whether a line break follows it, and the place behind. -/
def readPlain (inFlow : Bool) (minColumn : Nat) :
    Nat → List Char → Gap → Cursor → Option (List Char × Bool × Cursor)
  | 0, _, _, _ => none
  | fuel + 1, text, gap, c =>
    if c.atDocumentMark || c.head? == some '#' then some (text, !gap.breaks.isEmpty, c)
    else do
      let word ← plainWord inFlow c.rest
      let c := c.skip word.length
      let (text, gap) := if word.isEmpty then (text, gap) else (text ++ gap.text ++ word, {})
      if !c.head?.any isGapOrBreak then some (text, !gap.breaks.isEmpty, c)
      else
        let (gap, c) ← readGapAt minColumn false c
        if !inFlow && c.column < minColumn then some (text, !gap.breaks.isEmpty, c)
        else readPlain inFlow minColumn fuel text gap c

def readPlainAt (inFlow : Bool) (minColumn : Nat) (c : Cursor) :
    Option (List Char × Bool × Cursor) :=
  readPlain inFlow minColumn (c.rest.length + 1) [] {} c

/-! ### Quoted scalars -/

inductive Quote where
  | single
  | double
  deriving DecidableEq, Repr

def Quote.mark : Quote → Char
  | single => '\''
  | double => '"'

/-- The character that an escape of one letter stands for. -/
def namedEscape? : Char → Option Char
  | '0' => some '\x00'
  | 'a' => some '\x07'
  | 'b' => some '\x08'
  | 't' | '\t' => some '\t'
  | 'n' => some '\n'
  | 'v' => some '\x0b'
  | 'f' => some '\x0c'
  | 'r' => some '\r'
  | 'e' => some '\x1b'
  | ' ' => some ' '
  | '"' => some '"'
  | '/' => some '/'
  | '\\' => some '\\'
  | 'N' => some '\u0085'
  | '_' => some '\u00a0'
  | 'L' => some '\u2028'
  | 'P' => some '\u2029'
  | _ => none

/-- How many digits follow the letter of a numbered escape. -/
def escapeDigits? : Char → Option Nat
  | 'x' => some 2
  | 'u' => some 4
  | 'U' => some 8
  | _ => none

def hexDigit? (c : Char) : Option Nat :=
  if '0' ≤ c && c ≤ '9' then some (c.toNat - '0'.toNat)
  else if 'a' ≤ c && c ≤ 'f' then some (c.toNat - 'a'.toNat + 10)
  else if 'A' ≤ c && c ≤ 'F' then some (c.toNat - 'A'.toNat + 10)
  else none

def hexValue? (digits : List Char) : Option Nat :=
  digits.foldlM (fun n c => (hexDigit? c).map (16 * n + ·)) 0

/-- The character of a numbered escape; a surrogate is none. -/
def numberedEscape? (count : Nat) (digits : List Char) : Option Char := do
  let value ← hexValue? digits
  if digits.length = count && value.isValidChar then some (Char.ofNat value) else none

/-- Characters up to a gap, the closing quote or an escaped line break; the flag says it was the
last. -/
def quotedWord (quote : Quote) : Nat → List Char → Cursor → Option (List Char × Bool × Cursor)
  | 0, _, _ => none
  | fuel + 1, text, c =>
    match c.rest with
    | [] => some (text, false, c)
    | d :: rest =>
      if isGapOrBreak d then some (text, false, c)
      else if quote == .single && d == '\'' && rest.head? == some '\'' then
        quotedWord quote fuel (text ++ ['\'']) (c.skip 2)
      else if d == quote.mark then some (text, false, c)
      else if quote == .double && d == '\\' then do
        let letter ← rest.head?
        if isBreak letter then some (text, true, c.next.next)
        else match namedEscape? letter with
          | some e => quotedWord quote fuel (text ++ [e]) (c.skip 2)
          | none =>
            let count ← escapeDigits? letter
            let e ← numberedEscape? count ((rest.drop 1).take count)
            quotedWord quote fuel (text ++ [e]) (c.skip (2 + count))
      else quotedWord quote fuel (text ++ [d]) c.next

/-- Reads from behind the opening quote to behind the closing one. -/
def readQuoted (quote : Quote) : Nat → List Char → Cursor → Option (List Char × Cursor)
  | 0, _, _ => none
  | fuel + 1, text, c =>
    if c.atDocumentMark || c.rest.isEmpty then none
    else do
      let (text, escaped, c) ← quotedWord quote (c.rest.length + 1) text c
      if c.head? == some quote.mark then some (text, c.next)
      else
        let (gap, c) ← readGapAt 0 escaped c
        readQuoted quote fuel (text ++ (if escaped then gap.breaks else gap.text)) c

def readQuotedAt (quote : Quote) (c : Cursor) : Option (List Char × Cursor) :=
  readQuoted quote (c.rest.length + 1) [] c.next

/-! ### Block scalars -/

/-- What becomes of the line breaks at the end of a block. -/
inductive Chomp where
  | strip
  | clip
  | keep
  deriving DecidableEq, Repr

structure BlockHeader where
  chomp : Chomp := .clip
  /-- Zero when the text decides. -/
  increment : Nat := 0
  deriving DecidableEq, Repr

def chompOf? : Char → Option Chomp
  | '+' => some .keep
  | '-' => some .strip
  | _ => none

/-- A sign and a digit in either order, each at most once; the digit is not zero. -/
def blockHeader? (signs : List Char) : Option BlockHeader :=
  let digit? (c : Char) : Option Nat :=
    if '1' ≤ c && c ≤ '9' then some (c.toNat - '0'.toNat) else none
  match signs with
  | [] => some {}
  | [c] =>
    match chompOf? c with
    | some chomp => some { chomp }
    | none => (digit? c).map fun increment => { increment }
  | [c, d] =>
    match chompOf? c, chompOf? d with
    | some chomp, none => (digit? d).map fun increment => { chomp, increment }
    | none, some chomp => (digit? c).map fun increment => { chomp, increment }
    | _, _ => none
  | _ => none

/-- Empty lines and the indentation of the line behind them: the indentation of the block, which is
found here when it is zero, the breaks, and the place behind. -/
def readBlockBreaks (parent : Nat) :
    Nat → Nat → Nat → List Char → Cursor → Option (Nat × List Char × Cursor)
  | 0, _, _, _, _ => none
  | fuel + 1, indent, deepest, breaks, c =>
    let inside := indent == 0 || c.column < indent
    if inside && c.head? == some ' ' then readBlockBreaks parent fuel indent deepest breaks c.next
    else
      let deepest := max deepest c.column
      if inside && c.head? == some '\t' then none
      else if c.head?.any isBreak then
        readBlockBreaks parent fuel indent deepest (breaks ++ c.breakText) c.next
      else some (if indent == 0 then max 1 (max deepest parent) else indent, breaks, c)

/-- The text of a block so far, and the break and the empty lines that end it for now. -/
structure BlockText where
  text : List Char := []
  lastBreak : List Char := []
  emptyLines : List Char := []
  /-- The last line began with a gap. -/
  indented : Bool := false

/-- A folded line break between two lines that begin with a word is a space or nothing. -/
def BlockText.addLine (folded : Bool) (b : BlockText) (line : List Char) : BlockText :=
  let indented := line.head?.any isGap
  let joint :=
    if folded && b.lastBreak == ['\n'] && !b.indented && !indented then
      if b.emptyLines.isEmpty then [' '] else []
    else b.lastBreak
  { text := b.text ++ joint ++ b.emptyLines ++ line, indented }

def readBlockLines (folded : Bool) (parent indent : Nat) :
    Nat → BlockText → Cursor → Option (BlockText × Cursor)
  | 0, _, _ => none
  | fuel + 1, b, c =>
    if c.rest.isEmpty || c.column != indent then some (b, c)
    else do
      let line := c.rest.takeWhile (!isBreak ·)
      let c := c.skip line.length
      let lastBreak := c.breakText
      let (_, emptyLines, c) ← readBlockBreaks parent (c.rest.length + 2) indent 0 [] c.next
      readBlockLines folded parent indent fuel { b.addLine folded line with lastBreak, emptyLines } c

/-- Reads a block from behind its bar or angle, in a surrounding block at `indent`. -/
def readBlockAt (folded : Bool) (indent : Int) (c : Cursor) : Option (List Char × Cursor) := do
  let signs := c.rest.takeWhile fun d => d == '+' || d == '-' || d.isDigit
  let header ← blockHeader? signs
  let c := (c.skip signs.length).skipWhile isGap
  let c := if c.head? == some '#' then c.skipWhile (!isBreak ·) else c
  if !endsLine c.head? then none
  else
    let c := c.next
    let parent := (indent + 1).toNat
    let known := if header.increment = 0 then 0 else indent.toNat + header.increment
    let (column, emptyLines, c) ← readBlockBreaks parent (c.rest.length + 2) known 0 [] c
    let (b, c) ← readBlockLines folded parent column (c.rest.length + 1) { emptyLines } c
    let text := match header.chomp with
      | .strip => b.text
      | .clip => b.text ++ b.lastBreak
      | .keep => b.text ++ b.lastBreak ++ b.emptyLines
    some (text, c)

end CiPipeline.Markup
