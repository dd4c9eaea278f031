import CiPipeline.Decimal.Binary64

/-!
# Nodes

The value model of a document: scalars, lists, and maps as pairs in the order of insertion.
Equality (`==`) follows the values, so a NaN differs from itself and the two zeros are equal; maps
are equal when their pairs are, in order. `sameKey` is the comparison by which a mapping finds a
key, and tells floats apart by their bits.
-/

namespace CiPipeline

inductive Node where
  | null
  | bool (value : Bool)
  | int (value : Int64)
  | float (value : Binary64)
  | str (value : String)
  | list (items : List Node)
  | map (entries : List (Node × Node))
  deriving Repr, Inhabited

namespace Node

def isCollection : Node → Bool
  | list _ | map _ => true
  | _ => false

def isScalar (n : Node) : Bool := !n.isCollection

def asString? : Node → Option String
  | str s => some s
  | _ => none

def asList? : Node → Option (List Node)
  | list items => some items
  | _ => none

def asEntries? : Node → Option (List (Node × Node))
  | map entries => some entries
  | _ => none

/-- The value of the first pair whose key is this string. -/
def lookup? (key : String) (entries : List (Node × Node)) : Option Node :=
  (entries.find? fun entry => entry.1.asString? == some key).map (·.2)

/-- The value under a string key of a map; other nodes have none. -/
def get? (n : Node) (key : String) : Option Node :=
  n.asEntries?.bind (lookup? key)

mutual

def beq : Node → Node → Bool
  | null, null => true
  | bool a, bool b => a == b
  | int a, int b => a == b
  | float a, float b => a.ieeeEq b
  | str a, str b => a == b
  | list a, list b => beqItems a b
  | map a, map b => beqEntries a b
  | _, _ => false

def beqItems : List Node → List Node → Bool
  | [], [] => true
  | a :: as, b :: bs => a.beq b && beqItems as bs
  | _, _ => false

def beqEntries : List (Node × Node) → List (Node × Node) → Bool
  | [], [] => true
  | (k, v) :: as, (l, w) :: bs => k.beq l && v.beq w && beqEntries as bs
  | _, _ => false

end

instance : BEq Node := ⟨beq⟩

/-- Floats are the same key when their bits are equal, other scalars when they are equal. -/
def sameKey : Node → Node → Bool
  | float a, float b => a.bits == b.bits
  | a, b => a == b

theorem isScalar_eq_true_iff {n : Node} : n.isScalar = true ↔ n.isCollection = false := by
  simp [isScalar]

@[simp] theorem beq_str_str (a b : String) : (str a == str b) = (a == b) := by
  show beq (str a) (str b) = _
  rw [beq]

theorem beq_str_eq (n : Node) (s : String) : (n == str s) = (n.asString? == some s) := by
  show beq n (str s) = _
  cases n <;> simp [beq, asString?]

end Node
end CiPipeline
