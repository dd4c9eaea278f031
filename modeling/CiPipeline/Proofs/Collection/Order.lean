import CiPipeline.Collection.OrderedMap
import CiPipeline.Collection.OrderedSet
import Mathlib.Data.List.Nodup
import Mathlib.Data.List.Perm.Subperm

/-!
# Collections that differ in order only

Equal sets and equal maps may hold their members in different orders. They are the same collection
when no two members have changed places (`OrderedSet.eq_iff_keepsOrder`, `OrderedMap.eq_iff_keepsOrder`).
-/

namespace CiPipeline

/-- What comes before something in the first list comes before it in the second. -/
def KeepsOrder {α : Type} [DecidableEq α] (first second : List α) : Prop :=
  ∀ a ∈ first, ∀ b ∈ first, first.idxOf a < first.idxOf b → second.idxOf a < second.idxOf b

section
variable {α κ : Type} [DecidableEq κ]

instance (first second : List κ) : Decidable (KeepsOrder first second) :=
  inferInstanceAs (Decidable (∀ a ∈ first, ∀ b ∈ first, _))

theorem keepsOrder_of_eq {first second : List κ} (same : first = second) : KeepsOrder first second := by
  subst same
  exact fun _ _ _ _ before => before

theorem idxOf_key {items : List α} {key : α → κ} (distinct : (items.map key).Nodup) {i : Nat}
    (bound : i < items.length) : (items.map key).idxOf (key items[i]) = i := by
  have bound' : i < (items.map key).length := by rwa [List.length_map]
  rw [← List.getElem_map key (h := bound')]
  exact distinct.idxOf_getElem i bound'

/-- Lists of the same items, told apart by their keys, are equal when no two keys change places. -/
theorem eq_of_keepsOrder {first second : List α} {key : α → κ} (distinct : (first.map key).Nodup)
    (perm : first.Perm second) (order : KeepsOrder (first.map key) (second.map key)) : first = second := by
  have distinct' : (second.map key).Nodup := (perm.map key).nodup distinct
  -- both lists are sorted by the place that a key has in the second
  let place := fun a => (second.map key).idxOf (key a)
  have unique : ∀ a b, a ∈ first → b ∈ second → place a ≤ place b → place b ≤ place a → a = b := by
    intro a b member member' le ge
    have known : key a ∈ second.map key := List.mem_map_of_mem (perm.mem_iff.mp member)
    have same : key a = key b := (List.idxOf_inj known).mp (Nat.le_antisymm le ge)
    exact List.inj_on_of_nodup_map distinct' (perm.mem_iff.mp member) member' same
  have sorted : first.Pairwise fun a b => place a ≤ place b := by
    rw [List.pairwise_iff_getElem]
    intro i j bound bound' before
    refine Nat.le_of_lt (order _ (List.mem_map_of_mem (List.getElem_mem bound)) _
      (List.mem_map_of_mem (List.getElem_mem bound')) ?_)
    rwa [idxOf_key distinct, idxOf_key distinct]
  have sorted' : second.Pairwise fun a b => place a ≤ place b := by
    rw [List.pairwise_iff_getElem]
    intro i j bound bound' before
    have places : place second[i] = i ∧ place second[j] = j := ⟨idxOf_key distinct' bound, idxOf_key distinct' bound'⟩
    rw [places.1, places.2]
    exact Nat.le_of_lt before
  exact List.Perm.eq_of_pairwise unique sorted sorted' perm

end

namespace OrderedSet

variable {α : Type} [DecidableEq α]

theorem perm_of_beq {s t : OrderedSet α} (same : (s == t) = true) : s.toList.Perm t.toList := by
  obtain ⟨size, members⟩ := beq_iff.mp same
  exact (List.subperm_of_subset s.nodup members).perm_of_length_le (Nat.le_of_eq size.symm)

theorem eq_iff_keepsOrder {s t : OrderedSet α} (same : (s == t) = true) :
    s = t ↔ KeepsOrder s.toList t.toList := by
  constructor
  · exact fun equal => keepsOrder_of_eq (congrArg toList equal)
  · intro order
    have distinct : (s.toList.map id).Nodup := by rw [List.map_id]; exact s.nodup
    exact ext (eq_of_keepsOrder distinct (perm_of_beq same) (by rwa [List.map_id, List.map_id]))

end OrderedSet

namespace OrderedMap

variable {κ ν : Type} [DecidableEq κ]

def keys (m : OrderedMap κ ν) : List κ := m.entries.map (·.1)

theorem mem_of_get? {m : OrderedMap κ ν} {key : κ} {value : ν} (found : m.get? key = some value) :
    (key, value) ∈ m.entries := by
  obtain ⟨entry, held, rfl⟩ := Option.map_eq_some_iff.mp found
  have named : entry.1 = key := by simpa using List.find?_some held
  subst named
  exact List.mem_of_find?_eq_some held

theorem perm_of_beq [DecidableEq ν] {m n : OrderedMap κ ν} (same : (m == n) = true) :
    m.entries.Perm n.entries := by
  have opened : (m.size == n.size && m.entries.all fun entry => n.get? entry.1 == some entry.2) = true := same
  rw [Bool.and_eq_true, beq_iff_eq, List.all_eq_true] at opened
  obtain ⟨size, members⟩ := opened
  have held : m.entries ⊆ n.entries := fun entry member =>
    mem_of_get? (beq_iff_eq.mp (members entry member))
  have distinct : m.entries.Nodup := List.Nodup.of_map _ m.nodup
  exact (List.subperm_of_subset distinct held).perm_of_length_le (Nat.le_of_eq size.symm)

theorem eq_iff_keepsOrder [DecidableEq ν] {m n : OrderedMap κ ν} (same : (m == n) = true) :
    m = n ↔ KeepsOrder m.keys n.keys := by
  constructor
  · exact fun equal => keepsOrder_of_eq (congrArg keys equal)
  · intro order
    exact ext (eq_of_keepsOrder m.nodup (perm_of_beq same) order)

end OrderedMap
end CiPipeline
