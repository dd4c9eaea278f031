/-!
# Text under construction

A `Buffer` grows at its end only. `toList` is the text written so far, and each operation has one
equation over it; `endsLine_iff` says what the one question about the end of a buffer means.
-/

namespace CiPipeline.Text

/-- The last character comes first, so that adding to the text and looking at its end are short. -/
structure Buffer where
  reversed : List Char
  deriving DecidableEq, Repr

namespace Buffer

def empty : Buffer := ⟨[]⟩

def toList (out : Buffer) : List Char := out.reversed.reverse

def push (out : Buffer) (c : Char) : Buffer := ⟨c :: out.reversed⟩

def append (out : Buffer) (text : List Char) : Buffer := ⟨text.reverseAux out.reversed⟩

/-- The buffer is at the start of a line that an earlier character opened. -/
def endsLine (out : Buffer) : Bool := out.reversed.head? == some '\n'

@[simp] theorem toList_empty : empty.toList = [] := rfl

@[simp] theorem toList_push (out : Buffer) (c : Char) :
    (out.push c).toList = out.toList ++ [c] := by
  simp [toList, push]

@[simp] theorem toList_append (out : Buffer) (text : List Char) :
    (out.append text).toList = out.toList ++ text := by
  simp [toList, append, List.reverseAux_eq]

theorem toList_inj {a b : Buffer} : a.toList = b.toList ↔ a = b := by
  cases a; cases b; simp [toList]

theorem endsLine_iff (out : Buffer) : out.endsLine = true ↔ out.toList.getLast? = some '\n' := by
  simp [endsLine, toList, List.getLast?_reverse]

end Buffer
end CiPipeline.Text
