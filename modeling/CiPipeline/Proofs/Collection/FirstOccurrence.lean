import CiPipeline.Collection.OrderedSet
import Mathlib.Data.List.Basic
import Mathlib.Data.List.Induction

/-!
# Order of first occurrence

`eraseDups` keeps the first occurrence of each element. `eraseDups_concat` says what one more
element does to it, and `toList_ofList` that a set holds its members in that order.
-/

namespace CiPipeline

variable {α : Type} [DecidableEq α]

theorem eraseDups_concat (items : List α) (a : α) :
    (items ++ [a]).eraseDups =
      if a ∈ items.eraseDups then items.eraseDups else items.eraseDups ++ [a] := by
  rw [List.eraseDups_append]
  by_cases known : a ∈ items <;> simp [List.removeAll, known, List.eraseDups_cons]

theorem eraseDups_eq_nil_iff {items : List α} : items.eraseDups = [] ↔ items = [] := by
  simp only [List.eq_nil_iff_forall_not_mem, List.mem_eraseDups]

theorem eraseDups_map_of_injective {β : Type} [DecidableEq β] {f : α → β} (injective : Function.Injective f)
    (items : List α) : (items.map f).eraseDups = items.eraseDups.map f := by
  induction items using List.reverseRecOn with
  | nil => rfl
  | append_singleton items a ih =>
    have known : f a ∈ items.eraseDups.map f ↔ a ∈ items.eraseDups := List.mem_map_of_injective injective
    rw [List.map_append, List.map_singleton, eraseDups_concat, eraseDups_concat, ih]
    by_cases member : a ∈ items.eraseDups
    · rw [if_pos (known.mpr member), if_pos member]
    · rw [if_neg (mt known.mp member), if_neg member, List.map_append, List.map_singleton]

namespace OrderedSet

theorem toList_insert_eraseDups {s : OrderedSet α} {items : List α}
    (listed : s.toList = items.eraseDups) (a : α) :
    (s.insert a).toList = (items ++ [a]).eraseDups := by
  rw [toList_insert, eraseDups_concat, listed]

theorem ofList_concat (items : List α) (a : α) : ofList (items ++ [a]) = (ofList items).insert a := by
  rw [ofList, List.foldl_concat, ofList]

theorem toList_ofList (items : List α) : (ofList items).toList = items.eraseDups := by
  have grown : ∀ (rest front : List α) (s : OrderedSet α), s.toList = front.eraseDups →
      (rest.foldl insert s).toList = (front ++ rest).eraseDups := by
    intro rest
    induction rest with
    | nil => intro front s listed; simpa using listed
    | cons a rest ih =>
      intro front s listed
      simpa using ih (front ++ [a]) (s.insert a) (toList_insert_eraseDups listed a)
  exact grown items [] empty rfl

end OrderedSet

theorem nodup_eraseDups (items : List α) : items.eraseDups.Nodup := by
  rw [← OrderedSet.toList_ofList]
  exact (OrderedSet.ofList items).nodup

end CiPipeline
