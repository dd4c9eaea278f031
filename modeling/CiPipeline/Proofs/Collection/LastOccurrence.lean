import CiPipeline.Collection.OrderedMap
import CiPipeline.Proofs.Collection.FirstOccurrence

/-!
# The last item of each key

A map in order of insertion forgets the values that were replaced, but not the places of their keys.
`lastOfEach` does the same to a list of items with keys; `entries_ofList` says that a map made from
pairs holds these, and `eq_lastOfEach` that nothing else has its two properties.
-/

namespace CiPipeline

variable {α κ ν : Type} [DecidableEq κ]

/-- For each key the last item that has it, in the order in which the keys first occur. -/
def lastOfEach (key : α → κ) (items : List α) : List α :=
  (items.map key).eraseDups.filterMap fun k => items.reverse.find? (key · = k)

theorem eq_lastOfEach {key : α → κ} {items kept : List α} (keys : kept.map key = (items.map key).eraseDups)
    (last : ∀ a ∈ kept, items.reverse.find? (key · = key a) = some a) : kept = lastOfEach key items := by
  have found : kept.filterMap (fun a => items.reverse.find? (key · = key a)) = kept.filterMap some :=
    List.filterMap_congr last
  rw [lastOfEach, ← keys, List.filterMap_map]
  exact (found.trans List.filterMap_some).symm

theorem map_key_lastOfEach (key : α → κ) (items : List α) :
    (lastOfEach key items).map key = (items.map key).eraseDups := by
  have each : ∀ k ∈ (items.map key).eraseDups,
      (items.reverse.find? (key · = k)).map key = some k := by
    intro k member
    obtain ⟨a, known, rfl⟩ := List.mem_map.mp (List.mem_eraseDups.mp member)
    have exists_last : (items.reverse.find? (key · = key a)).isSome = true :=
      List.find?_isSome.mpr ⟨a, List.mem_reverse.mpr known, by simp⟩
    obtain ⟨b, found⟩ := Option.isSome_iff_exists.mp exists_last
    have same : key b = key a := by simpa using List.find?_some found
    rw [found, Option.map_some, same]
  rw [lastOfEach, List.map_filterMap, List.filterMap_congr each, List.filterMap_some]

theorem lastOfEach_eq_nil_iff {key : α → κ} {items : List α} : lastOfEach key items = [] ↔ items = [] := by
  rw [← List.map_eq_nil_iff (f := key), map_key_lastOfEach, eraseDups_eq_nil_iff, List.map_eq_nil_iff]

theorem lastOfEach_map {β : Type} (f : α → β) (key : β → κ) (items : List α) :
    lastOfEach key (items.map f) = (lastOfEach (key ∘ f) items).map f := by
  rw [lastOfEach, lastOfEach, List.map_map, List.map_filterMap, ← List.map_reverse]
  simp only [List.find?_map, Function.comp_def]

/-- Keys that tell the same items apart keep the same items. -/
theorem lastOfEach_comp {κ' : Type} [DecidableEq κ'] {f : κ → κ'} (injective : Function.Injective f)
    (key : α → κ) (items : List α) : lastOfEach (f ∘ key) items = lastOfEach key items := by
  rw [lastOfEach, ← List.map_map, eraseDups_map_of_injective injective, List.filterMap_map, lastOfEach]
  simp only [Function.comp_def, injective.eq_iff]

namespace OrderedMap

def ofList (pairs : List (κ × ν)) : OrderedMap κ ν :=
  pairs.foldl (fun m pair => m.insert pair.1 pair.2) empty

theorem ofList_concat (pairs : List (κ × ν)) (pair : κ × ν) :
    (ofList (pairs ++ [pair]) : OrderedMap κ ν) = (ofList pairs).insert pair.1 pair.2 := by
  rw [ofList, List.foldl_concat, ofList]

/-- Where no key stands twice, a new value takes the place of every value of its key. -/
theorem mem_put {key : κ} {value : ν} {entries : List (κ × ν)} (distinct : (entries.map (·.1)).Nodup)
    {entry : κ × ν} (member : entry ∈ put key value entries) :
    entry = (key, value) ∨ entry ∈ entries ∧ entry.1 ≠ key := by
  induction entries with
  | nil => exact .inl (List.mem_singleton.mp member)
  | cons first entries ih =>
    obtain ⟨missing, distinct⟩ := List.nodup_cons.mp distinct
    rw [put] at member
    by_cases same : first.1 = key
    · rw [if_pos same] at member
      rcases List.mem_cons.mp member with rfl | member
      · exact .inl (Prod.ext same rfl)
      · refine .inr ⟨.tail _ member, fun other => missing ?_⟩
        have known := List.mem_map_of_mem (f := (·.1)) member
        rwa [other, ← same] at known
    · rw [if_neg same] at member
      rcases List.mem_cons.mp member with rfl | member
      · exact .inr ⟨.head _, same⟩
      · exact (ih distinct member).imp_right (And.imp_left (.tail _))

theorem keys_ofList (pairs : List (κ × ν)) :
    (ofList pairs).entries.map (·.1) = (pairs.map (·.1)).eraseDups := by
  induction pairs using List.reverseRecOn with
  | nil => rfl
  | append_singleton pairs pair ih =>
    rw [ofList_concat, entries_insert, keys_put, List.map_append, List.map_singleton, eraseDups_concat, ih]

theorem last_ofList {pairs : List (κ × ν)} {entry : κ × ν} (member : entry ∈ (ofList pairs).entries) :
    pairs.reverse.find? (·.1 = entry.1) = some entry := by
  induction pairs using List.reverseRecOn with
  | nil => cases member
  | append_singleton pairs pair ih =>
    rw [ofList_concat, entries_insert] at member
    rw [List.reverse_concat]
    rcases mem_put (ofList pairs).nodup member with rfl | ⟨earlier, differs⟩
    · exact List.find?_cons_of_pos (decide_eq_true rfl)
    · rw [List.find?_cons_of_neg (by simpa using differs.symm), ih earlier]

theorem entries_ofList (pairs : List (κ × ν)) : (ofList pairs).entries = lastOfEach (·.1) pairs :=
  eq_lastOfEach (keys_ofList pairs) fun _ => last_ofList

end OrderedMap
end CiPipeline
