import CiPipeline.Node.Conversion
import CiPipeline.Proofs.Node.Dictionary

/-!
# Equality of nodes

Equality follows the values, and the only nodes it takes for one another are the two zeros. Where
neither side has a negative zero among its `floats`, equal nodes are the same (`Node.eq_of_beq`).
-/

namespace CiPipeline

namespace Binary64

def isNegativeZero (x : Binary64) : Bool := x.isZero && x.isNegative

theorem bits_eq_zero {x : Binary64} (zero : x.isZero = true) (signed : x.isNegativeZero = false) :
    x.bits.toNat = 0 := by
  have positive : x.bits.toNat.testBit 63 = false := by simpa [isNegativeZero, zero, isNegative] using signed
  rw [Nat.testBit_eq_decide_div_mod_eq, decide_eq_false_iff_not] at positive
  simp only [isZero, biasedExponent, fraction, Bool.and_eq_true, beq_iff_eq, Nat.shiftRight_eq_div_pow,
    Nat.shiftLeft_eq] at zero
  have bound := x.bits.toNat_lt
  omega

theorem eq_of_ieeeEq_of_positive {x y : Binary64} (same : x.ieeeEq y = true)
    (signed : x.isNegativeZero = false) (signed' : y.isNegativeZero = false) : x = y := by
  cases zero : x.isZero with
  | false => exact eq_of_ieeeEq same zero
  | true =>
    simp only [ieeeEq, Bool.and_eq_true, Bool.or_eq_true, beq_iff_eq] at same
    rcases same.2 with same | zeros
    · exact same
    · have bits := (bits_eq_zero zero signed).trans (bits_eq_zero zeros.2 signed').symm
      cases x
      cases y
      exact congrArg Binary64.mk (UInt64.toNat.inj bits)

end Binary64

namespace Node

mutual

/-- The floats in a node, at any depth, those in its keys included. -/
def floats : Node → List Binary64
  | float x => [x]
  | list items => floatsItems items
  | map entries => floatsEntries entries
  | null | bool _ | int _ | str _ => []

def floatsItems : List Node → List Binary64
  | [] => []
  | item :: items => item.floats ++ floatsItems items

def floatsEntries : List (Node × Node) → List Binary64
  | [] => []
  | (key, value) :: entries => key.floats ++ value.floats ++ floatsEntries entries

end

def NoNegativeZero (floats : List Binary64) : Prop := ∀ x ∈ floats, x.isNegativeZero = false

theorem noNegativeZero_nil : NoNegativeZero [] := fun _ member => by cases member

theorem noNegativeZero_append {first second : List Binary64} :
    NoNegativeZero (first ++ second) ↔ NoNegativeZero first ∧ NoNegativeZero second := List.forall_mem_append

mutual

theorem eq_of_beq : ∀ {a b : Node}, NoNegativeZero a.floats → NoNegativeZero b.floats → a.beq b = true → a = b
  | null, b, _, _, same => by cases b <;> simp_all [beq]
  | bool _, b, _, _, same => by cases b <;> simp_all [beq]
  | int _, b, _, _, same => by cases b <;> simp_all [beq]
  | str _, b, _, _, same => by cases b <;> simp_all [beq]
  | float x, b, signed, signed', same => by
    cases b with
    | float y =>
      rw [beq] at same
      rw [Binary64.eq_of_ieeeEq_of_positive same (signed x (by simp [floats])) (signed' y (by simp [floats]))]
    | _ => cases same
  | list items, b, signed, signed', same => by
    cases b with
    | list items' =>
      rw [beq] at same
      rw [floats] at signed signed'
      rw [eq_of_beqItems signed signed' same]
    | _ => cases same
  | map entries, b, signed, signed', same => by
    cases b with
    | map entries' =>
      rw [beq] at same
      rw [floats] at signed signed'
      rw [eq_of_beqEntries signed signed' same]
    | _ => cases same

theorem eq_of_beqItems : ∀ {as bs : List Node}, NoNegativeZero (floatsItems as) → NoNegativeZero (floatsItems bs) →
    beqItems as bs = true → as = bs
  | [], [], _, _, _ => rfl
  | [], _ :: _, _, _, same => by cases same
  | _ :: _, [], _, _, same => by cases same
  | a :: as, b :: bs, signed, signed', same => by
    rw [beqItems, Bool.and_eq_true] at same
    rw [floatsItems, noNegativeZero_append] at signed signed'
    rw [eq_of_beq signed.1 signed'.1 same.1, eq_of_beqItems signed.2 signed'.2 same.2]

theorem eq_of_beqEntries : ∀ {as bs : List (Node × Node)}, NoNegativeZero (floatsEntries as) →
    NoNegativeZero (floatsEntries bs) → beqEntries as bs = true → as = bs
  | [], [], _, _, _ => rfl
  | [], _ :: _, _, _, same => by cases same
  | _ :: _, [], _, _, same => by cases same
  | (k, v) :: as, (l, w) :: bs, signed, signed', same => by
    rw [beqEntries, Bool.and_eq_true, Bool.and_eq_true] at same
    rw [floatsEntries, noNegativeZero_append, noNegativeZero_append] at signed signed'
    rw [eq_of_beq signed.1.1 signed'.1.1 same.1.1, eq_of_beq signed.1.2 signed'.1.2 same.1.2,
      eq_of_beqEntries signed.2 signed'.2 same.2]

end

theorem floats_strings (texts : List String) : (toNode texts).floats = [] := by
  show floatsItems (texts.map .str) = []
  induction texts with
  | nil => rfl
  | cons text texts ih => exact ih

theorem floatsEntries_upsert {found : Node → Bool} {key value : Node} {entries : List (Node × Node)}
    (newKey : key.floats = []) (newValue : value.floats = []) (before : floatsEntries entries = []) :
    floatsEntries (Mapping.upsert found key value entries) = [] := by
  induction entries with
  | nil => simp [Mapping.upsert, floatsEntries, newKey, newValue]
  | cons entry entries ih =>
    obtain ⟨k, v⟩ := entry
    simp only [floatsEntries, List.append_eq_nil_iff] at before
    rw [Mapping.upsert]
    split
    · simp [floatsEntries, before, newValue]
    · simp [floatsEntries, before, ih before.2]

theorem beq_entries (as bs : List (Node × Node)) : (as == bs) = beqEntries as bs := by
  induction as generalizing bs with
  | nil => cases bs <;> rfl
  | cons a as ih =>
    cases bs with
    | nil => rfl
    | cons b bs =>
      rw [List.cons_beq_cons, ih]
      rfl

end Node

namespace Mapping

theorem floats_add {α} [ToNode α] {m : Mapping} (before : (toNode m).floats = []) {value : α}
    (new : (toNode value).floats = []) (key : String) : (toNode (m.add key value)).floats = [] := by
  have keyless : (Node.str key).floats = [] := rfl
  exact Node.floatsEntries_upsert keyless new before

theorem eq_of_beq {m n : Mapping} (signed : Node.NoNegativeZero (toNode m).floats)
    (signed' : Node.NoNegativeZero (toNode n).floats) (same : (m == n) = true) : m = n := by
  have entries : (m.entries == n.entries) = true := same
  rw [Node.beq_entries] at entries
  rw [toNode_mapping, Node.floats] at signed signed'
  exact congrArg Mapping.mk (Node.eq_of_beqEntries signed signed' entries)

end Mapping
end CiPipeline
