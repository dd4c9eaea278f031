import CiPipeline.Decimal.Style
import CiPipeline.Node.Basic
import CiPipeline.Text.Blank
import CiPipeline.Text.Buffer
import CiPipeline.Text.Bytes
import CiPipeline.Text.Split

/-!
# Document text of a node

A collection opens a line for each of its entries, two spaces deeper per level; `layout` is the text
of a node at a level and `document` the complete text of a file. An item of a list that is itself a
collection begins on the line of its dash: it is laid out on its own and its first line break and
indentation are cut off.
-/

namespace CiPipeline
open Text

/-- Positional at every size, and a tie goes away from zero. -/
def documentNumbers : Decimal.Style := ⟨.up, fun _ => true⟩

def indentation (level : Nat) : List Char := List.replicate (2 * level) ' '

namespace Node

def floatText (x : Binary64) : List Char :=
  if x.isNaN then ".nan".toList
  else if x.isInfinite then (if x.isNegative then "-.inf" else ".inf").toList
  else documentNumbers.write x

/-- Each piece on a line of its own, one level deeper than the entry, under a bar. -/
def blockText (text : List Char) (level : Nat) : List Char :=
  '|' :: (split '\n' text).flatMap (fun line => '\n' :: indentation (level + 1) ++ line) ++ ['\n']

/-- Single quotes, with a quote inside written twice. -/
def quotedText (text : List Char) : List Char :=
  '\'' :: text.flatMap (fun c => if c = '\'' then ['\'', '\''] else [c]) ++ ['\'']

def stringText (text : List Char) (level : Nat) : List Char :=
  if text.contains '\n' then blockText text level
  else if allBlank text then ['\'', '\'']
  else if text.contains ':' then quotedText text
  else text

/-- A collection with entries is laid out on lines of its own. -/
def isBlock : Node → Bool
  | list items => !items.isEmpty
  | map entries => !entries.isEmpty
  | _ => false

/-- Opens the line of an entry; a block of text before it has done so already. -/
def beginEntry (out : Buffer) (level : Nat) : Buffer :=
  (if out.endsLine then out else out.push '\n').append (indentation level)

/-- What follows the line break and the indentation of a layout at `level`. -/
def firstEntryCut (text : List Char) (level : Nat) : List Char :=
  (dropBytes? (1 + 2 * level) text).getD []

mutual

def write (out : Buffer) (level : Nat) : Node → Buffer
  | null => out.append "null".toList
  | bool b => out.append (if b then "true" else "false").toList
  | int i => out.append (Decimal.ofInt i.toInt)
  | float x => out.append (floatText x)
  | str s => out.append (stringText s.toList level)
  | list items => if items.isEmpty then out.append ['[', ']'] else writeItems out level items
  | map entries => if entries.isEmpty then out.append ['{', '}'] else writeEntries out level entries

def writeItems (out : Buffer) (level : Nat) : List Node → Buffer
  | [] => out
  | item :: items =>
    let dash := (beginEntry out level).append ['-', ' ']
    let out :=
      if item.isBlock then
        dash.append (firstEntryCut (item.write .empty (level + 1)).toList (level + 1))
      else item.write dash (level + 1)
    writeItems out level items

def writeEntries (out : Buffer) (level : Nat) : List (Node × Node) → Buffer
  | [] => out
  | (key, value) :: entries =>
    let header := (key.write (beginEntry out level) (level + 1)).push ':'
    let out :=
      if value.isBlock then value.write header (level + 1)
      else value.write (header.push ' ') (level + 1)
    writeEntries out level entries

end

/-- The text at a level: a collection with entries starts with a line break. -/
def layout (n : Node) (level : Nat) : List Char := (n.write .empty level).toList

/-- The layout at level zero without the line break at its start, and with one at its end. -/
def documentText (n : Node) : List Char :=
  let text := n.layout 0
  let text := if text.head? = some '\n' then text.tail else text
  if text.getLast? = some '\n' then text else text ++ ['\n']

def render (n : Node) (level : Nat) : String := String.ofList (n.layout level)

def document (n : Node) : String := String.ofList n.documentText

@[simp] theorem toList_document (n : Node) : n.document.toList = n.documentText := by
  simp [document]

@[simp] theorem toList_render (n : Node) (level : Nat) :
    (n.render level).toList = n.layout level := by
  simp [render]

theorem isBlock_of_isScalar {n : Node} (h : n.isScalar = true) : n.isBlock = false := by
  cases n <;> simp_all [isScalar, isCollection, isBlock]

end Node
end CiPipeline
