import CiPipeline.Decimal.Style
import CiPipeline.Node.Basic

/-!
# JSON text of a node

Compact JSON with the pairs of a map in order. What a key becomes is up to a `KeyWriter`: with `keyText`
a string, an integer, a boolean or a finite float becomes a string, and two keys may get the same
text. Null and the floats that are not finite cannot be keys, but stand as `null` where they are values.
-/

namespace CiPipeline

inductive JsonError where
  | keyNotString
  | keyNotFinite
  deriving DecidableEq, Repr

def JsonError.message : JsonError → String
  | keyNotString => "key must be a string"
  | keyNotFinite => "float key must be finite (got NaN or +/-inf)"

namespace Json

/-- Positional from five zeros after the point to sixteen digits before it; ties go to even. -/
def numbers : Decimal.Style := ⟨.even, fun power => -5 ≤ power && power < 16⟩

def escape (c : Char) : List Char :=
  match c with
  | '"' => ['\\', '"']
  | '\\' => ['\\', '\\']
  | '\x08' => ['\\', 'b']
  | '\x0C' => ['\\', 'f']
  | '\n' => ['\\', 'n']
  | '\r' => ['\\', 'r']
  | '\t' => ['\\', 't']
  | c =>
    if c.toNat < 0x20 then
      ['\\', 'u', '0', '0', (c.toNat / 16).digitChar, (c.toNat % 16).digitChar]
    else [c]

def quote (text : List Char) : List Char := '"' :: text.flatMap escape ++ ['"']

def boolText (b : Bool) : List Char := (if b then "true" else "false").toList

def floatText (x : Binary64) : List Char := if x.isFinite then numbers.write x else "null".toList

/-- The text of a key, or why it cannot be one. -/
abbrev KeyWriter := Node → Except JsonError (List Char)

def keyText : KeyWriter
  | .str s => .ok (quote s.toList)
  | .int i => .ok (quote (Decimal.ofInt i.toInt))
  | .bool b => .ok (quote (boolText b))
  | .float x => if x.isFinite then .ok (quote (numbers.write x)) else .error .keyNotFinite
  | .null | .list _ | .map _ => .error .keyNotString

def commaSeparated (parts : List (List Char)) : List Char := [','].intercalate parts

end Json

namespace Node
open Json

mutual

/-- Of several faults the first in reading order is reported, a key being read before its value. -/
def jsonText (writeKey : KeyWriter) : Node → Except JsonError (List Char)
  | null => .ok "null".toList
  | bool b => .ok (boolText b)
  | int i => .ok (Decimal.ofInt i.toInt)
  | float x => .ok (Json.floatText x)
  | str s => .ok (quote s.toList)
  | list items => do
    let parts ← jsonItems writeKey items
    return '[' :: commaSeparated parts ++ [']']
  | map entries => do
    let parts ← jsonEntries writeKey entries
    return '\x7b' :: commaSeparated parts ++ ['\x7d']

def jsonItems (writeKey : KeyWriter) : List Node → Except JsonError (List (List Char))
  | [] => .ok []
  | item :: items => do
    let text ← item.jsonText writeKey
    let texts ← jsonItems writeKey items
    return text :: texts

def jsonEntries (writeKey : KeyWriter) : List (Node × Node) → Except JsonError (List (List Char))
  | [] => .ok []
  | (key, value) :: entries => do
    let name ← writeKey key
    let text ← value.jsonText writeKey
    let texts ← jsonEntries writeKey entries
    return (name ++ ':' :: text) :: texts

end

/-- The complete text, or the reason why there is none. -/
def jsonWith (writeKey : KeyWriter) (n : Node) : Except JsonError String :=
  (n.jsonText writeKey).map String.ofList

def json (n : Node) : Except JsonError String := n.jsonWith keyText

end Node
end CiPipeline
