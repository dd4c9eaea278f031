import CiPipeline.Error
import CiPipeline.Node.Layout

/-!
# Mappings

Pairs in the order in which their keys were first inserted. `insert` takes a key of any kind and
refuses collections; `insertString` takes a string, which is always a key. Both replace the value
of a known key where it stands. `keys_upsert` says what a write does to the keys,
`find?_upsert_self` and `find?_upsert_other` what it does to a look-up.
-/

namespace CiPipeline

structure Mapping where
  entries : List (Node × Node) := []
  deriving Repr, Inhabited, BEq

namespace Mapping

def empty : Mapping := {}

/-- Gives the first entry whose key is `found` a new value, or adds the pair at the end. -/
def upsert (found : Node → Bool) (key value : Node) : List (Node × Node) → List (Node × Node)
  | [] => [(key, value)]
  | (k, v) :: entries =>
    if found k then (k, value) :: entries else (k, v) :: upsert found key value entries

def find? (found : Node → Bool) (entries : List (Node × Node)) : Option Node :=
  (entries.find? fun entry => found entry.1).map (·.2)

/-- The value that the key had before, and the mapping after the write. -/
def write (m : Mapping) (found : Node → Bool) (key value : Node) : Option Node × Mapping :=
  (find? found m.entries, ⟨upsert found key value m.entries⟩)

def insert (m : Mapping) (key value : Node) : Except ValidationError (Option Node × Mapping) :=
  if key.isCollection then
    .error (.nonScalarKey (String.ofList (Text.trimEnd key.documentText)))
  else .ok (m.write (·.sameKey key) key value)

def insertString (m : Mapping) (key : String) (value : Node) : Option Node × Mapping :=
  m.write (· == .str key) (.str key) value

def get? (m : Mapping) (key : String) : Option Node := Node.lookup? key m.entries

def contains (m : Mapping) (key : String) : Bool := (m.get? key).isSome

def size (m : Mapping) : Nat := m.entries.length

def isEmpty (m : Mapping) : Bool := m.entries.isEmpty

def keys (m : Mapping) : List Node := m.entries.map (·.1)

theorem keys_upsert (found : Node → Bool) (key value : Node) (entries : List (Node × Node)) :
    (upsert found key value entries).map (·.1) =
      if (entries.map (·.1)).any found then entries.map (·.1) else entries.map (·.1) ++ [key] := by
  induction entries with
  | nil => simp [upsert]
  | cons entry entries ih =>
    rw [upsert]
    by_cases h : found entry.1 = true
    · simp [h]
    · simp only [Bool.not_eq_true] at h
      simp only [h, Bool.false_eq_true, if_false, List.map_cons, ih, List.any_cons, Bool.false_or]
      split <;> rfl

theorem find?_upsert_self (found : Node → Bool) (key value : Node) (entries : List (Node × Node))
    (self : found key = true) : find? found (upsert found key value entries) = some value := by
  induction entries with
  | nil => simp [upsert, find?, self]
  | cons entry entries ih =>
    rw [upsert]
    split <;> simp_all [find?]

theorem find?_upsert_other (found other : Node → Bool) (key value : Node)
    (entries : List (Node × Node)) (apart : other key = false)
    (same : ∀ k, found k = true → other k = false) :
    find? other (upsert found key value entries) = find? other entries := by
  induction entries with
  | nil => simp [upsert, find?, apart]
  | cons entry entries ih =>
    rw [upsert]
    split
    next h => simp [find?, same _ h]
    next => simp only [find?, List.find?_cons] at ih ⊢; split <;> simp_all

end Mapping
end CiPipeline
