import CiPipeline.Node.Mapping

/-!
# Properties of all scalars and keys

`Every key value` says of a tree that its scalars in value position satisfy one property and the
keys of its maps another, at every depth. Writing a pair into a mapping keeps such a property
(`every_upsert`, `every_insertString`).
-/

namespace CiPipeline.Node

inductive Every (key value : Node → Prop) : Node → Prop where
  | scalar {n : Node} (kind : n.isScalar = true) (holds : value n) : Every key value n
  | list {items : List Node} (each : ∀ item ∈ items, Every key value item) :
      Every key value (.list items)
  | map {entries : List (Node × Node)} (keys : ∀ entry ∈ entries, key entry.1)
      (values : ∀ entry ∈ entries, Every key value entry.2) : Every key value (.map entries)

variable {key value : Node → Prop}

theorem every_list_iff {items : List Node} :
    (list items).Every key value ↔ ∀ item ∈ items, item.Every key value := by
  constructor
  · intro every
    cases every with
    | scalar kind _ => contradiction
    | list each => exact each
  · exact .list

theorem every_map_iff {entries : List (Node × Node)} :
    (map entries).Every key value ↔
      (∀ entry ∈ entries, key entry.1) ∧ ∀ entry ∈ entries, entry.2.Every key value := by
  constructor
  · intro every
    cases every with
    | scalar kind _ => contradiction
    | map keys values => exact ⟨keys, values⟩
  · exact fun ⟨keys, values⟩ => .map keys values

theorem every_scalar_iff {n : Node} (scalar : n.isScalar = true) :
    n.Every key value ↔ value n := by
  constructor
  · intro every
    cases every with
    | scalar _ holds => exact holds
    | list => contradiction
    | map => contradiction
  · exact .scalar scalar

theorem Every.mono {key' value' : Node → Prop} {n : Node} (every : n.Every key value)
    (keys : ∀ k, key k → key' k) (values : ∀ v, value v → value' v) : n.Every key' value' := by
  induction every with
  | scalar kind holds => exact .scalar kind (values _ holds)
  | list _ ih => exact .list ih
  | map found _ ih => exact .map (fun entry member => keys _ (found entry member)) ih

/-! ### Mappings -/

theorem every_upsert {found : Node → Bool} {k v : Node} {entries : List (Node × Node)}
    (before : (map entries).Every key value) (newKey : key k) (newValue : v.Every key value) :
    (map (Mapping.upsert found k v entries)).Every key value := by
  induction entries with
  | nil => simpa [Mapping.upsert, every_map_iff] using ⟨newKey, newValue⟩
  | cons entry entries ih =>
    simp only [every_map_iff, List.forall_mem_cons] at before ih ⊢
    obtain ⟨⟨firstKey, keys⟩, firstValue, values⟩ := before
    rw [Mapping.upsert]
    split
    · simp only [List.forall_mem_cons]
      exact ⟨⟨firstKey, keys⟩, newValue, values⟩
    · obtain ⟨restKeys, restValues⟩ := ih ⟨keys, values⟩
      simp only [List.forall_mem_cons]
      exact ⟨⟨firstKey, restKeys⟩, firstValue, restValues⟩

theorem every_insertString {m : Mapping} {name : String} {v : Node}
    (before : (map m.entries).Every key value) (newKey : key (.str name))
    (newValue : v.Every key value) : (map (m.insertString name v).2.entries).Every key value :=
  every_upsert before newKey newValue

end CiPipeline.Node
