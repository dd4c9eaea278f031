/-!
# Places in a marked-up text

A cursor is the rest of a text together with the line and column that it starts at. The characters
of the format fall into gaps, line breaks and the rest.
-/

namespace CiPipeline.Markup

structure Cursor where
  rest : List Char
  line : Nat := 0
  column : Nat := 0
  /-- How many bytes came before. -/
  index : Nat := 0
  deriving DecidableEq, Repr

def isBreak (c : Char) : Bool :=
  c == '\n' || c == '\r' || c == '\u0085' || c == '\u2028' || c == '\u2029'

def isGap (c : Char) : Bool := c == ' ' || c == '\t'

def isGapOrBreak (c : Char) : Bool := isGap c || isBreak c

/-- The end of the text ends a word, too. -/
def endsWord (next : Option Char) : Bool := next.all isGapOrBreak

def endsLine (next : Option Char) : Bool := next.all isBreak

/-- The characters that a text may hold at all. -/
def isAllowed (c : Char) : Bool :=
  c == '\t' || c == '\n' || c == '\r' || c == '\u0085' ||
    (' ' ≤ c && c ≤ '~') || ('\u00a0' ≤ c && c ≤ '\ufffd') || 0x10000 ≤ c.toNat

namespace Cursor

def head? (c : Cursor) : Option Char := c.rest.head?

def peek? (c : Cursor) (n : Nat) : Option Char := c.rest[n]?

/-- One character on; a carriage return and a line feed are one line break. -/
def next (c : Cursor) : Cursor :=
  match c.rest with
  | [] => c
  | '\r' :: '\n' :: rest => ⟨rest, c.line + 1, 0, c.index + 2⟩
  | d :: rest =>
    if isBreak d then ⟨rest, c.line + 1, 0, c.index + d.utf8Size⟩
    else ⟨rest, c.line, c.column + 1, c.index + d.utf8Size⟩

def skip (c : Cursor) : Nat → Cursor
  | 0 => c
  | n + 1 => skip c.next n

/-- Past the characters of a class. -/
def skipWhile (c : Cursor) (p : Char → Bool) : Cursor := c.skip (c.rest.takeWhile p).length

/-- The break at the cursor as text; all common ones become a line feed. -/
def breakText (c : Cursor) : List Char :=
  match c.head? with
  | some '\u2028' => ['\u2028']
  | some '\u2029' => ['\u2029']
  | some d => if isBreak d then ['\n'] else []
  | none => []

/-- Three dashes or three dots at the start of a line. -/
def atMark (c : Cursor) (mark : Char) : Bool :=
  c.column == 0 && c.rest.take 3 == [mark, mark, mark] && endsWord (c.peek? 3)

def atDocumentMark (c : Cursor) : Bool := c.atMark '-' || c.atMark '.'

end Cursor
end CiPipeline.Markup
