import CiPipeline.Node.Conversion
import CiPipeline.Proofs.Collection.LastOccurrence
import Mathlib.Data.List.Nodup

/-!
# Mappings of optional fields

A mapping that is written field by field, each when it has a value, is `ofFields`. Where no name
stands twice, its entries are the fields that have a value, in order (`entries_ofFields`), a look-up
finds each of them (`lookup?_pairs`), and the fields can be recovered (`present_injective`).
-/

namespace CiPipeline.Mapping

def ofFields (fields : List (String × Option Node)) : Mapping :=
  fields.foldl (fun m field => m.addOpt field.1 field.2) .empty

/-- The fields that have a value. -/
def present (fields : List (String × Option Node)) : List (String × Node) :=
  fields.filterMap fun field => field.2.map (field.1, ·)

/-- Named values as the entries of a map. -/
def pairs (named : List (String × Node)) : List (Node × Node) :=
  named.map fun field => (.str field.1, field.2)

/-- A list as the value of a field, which an empty one has not. -/
def listed {α} [ToNode α] (items : List α) : Option Node :=
  if items.isEmpty then none else some (toNode items)

/-- A mapping as the value of a field, which an empty one has not. -/
def nested (value : Mapping) : Option Node :=
  if value.isEmpty then none else some (toNode value)

theorem listed_eq_some_iff {α} [ToNode α] {items : List α} {n : Node} :
    listed items = some n ↔ items ≠ [] ∧ toNode items = n := by
  unfold listed
  split <;> simp_all

theorem listed_eq_none_iff {α} [ToNode α] {items : List α} : listed items = none ↔ items = [] := by
  unfold listed
  split <;> simp_all

theorem nested_eq_some_iff {m : Mapping} {n : Node} :
    nested m = some n ↔ m.entries ≠ [] ∧ toNode m = n := by
  unfold nested Mapping.isEmpty
  split <;> simp_all

/-- Whether a mapping is written can be seen from the list that it was made of. -/
theorem nested_eq_ite {α} {m : Mapping} {items : List α} (empty : m.entries = [] ↔ items = []) :
    nested m = if items.isEmpty then none else some (.map m.entries) := by
  have same : m.isEmpty = items.isEmpty := by
    rw [Bool.eq_iff_iff, Mapping.isEmpty, List.isEmpty_iff, List.isEmpty_iff, empty]
  rw [nested, same, toNode_mapping]

theorem listed_map {α β} [ToNode α] [ToNode β] {f : α → β} (same : ∀ a, toNode (f a) = toNode a)
    (items : List α) : listed (items.map f) = listed items := by
  have nodes : toNode (items.map f) = toNode items := by
    rw [toNode_list, toNode_list, List.map_map]
    exact congrArg Node.list (List.map_congr_left fun a _ => same a)
  rw [listed, nodes, List.isEmpty_map, listed]

theorem toNode_list_injective {α} [ToNode α] (injective : ∀ {a b : α}, toNode a = toNode b → a = b)
    {first second : List α} (same : toNode first = toNode second) : first = second :=
  (List.map_inj_right fun _ _ => injective).mp (Node.list.inj same)

theorem empty_or_eq {empty empty' : Bool} {n n' : Node}
    (same : (if empty then none else some n) = if empty' then none else some n') :
    (empty = true ∧ empty' = true) ∨ n = n' := by
  cases empty <;> cases empty' <;> simp_all

theorem listed_injective {α} [ToNode α] (injective : ∀ {a b : α}, toNode a = toNode b → a = b)
    {first second : List α} (same : listed first = listed second) : first = second := by
  rcases empty_or_eq same with ⟨empty, empty'⟩ | same
  · rw [List.isEmpty_iff.mp empty, List.isEmpty_iff.mp empty']
  · exact toNode_list_injective injective same

theorem nested_injective {first second : Mapping} (same : nested first = nested second) :
    first.entries = second.entries := by
  rcases empty_or_eq same with ⟨empty, empty'⟩ | same
  · rw [List.isEmpty_iff.mp empty, List.isEmpty_iff.mp empty']
  · exact Node.map.inj same

/-! ### Ways to write a field -/

theorem addOpt_map {α} [ToNode α] (m : Mapping) (key : String) (value : Option α) :
    m.addOpt key (value.map toNode) = m.addOpt key value := by
  cases value <;> rfl

theorem addOpt_some {α} [ToNode α] (m : Mapping) (key : String) (value : α) :
    m.addOpt key (some (toNode value)) = m.add key value := rfl

theorem addOpt_listed {α} [ToNode α] (m : Mapping) (key : String) (items : List α) :
    m.addOpt key (listed items) = m.addNonEmpty key items := by
  unfold listed addNonEmpty
  split <;> rfl

theorem addOpt_nested (m : Mapping) (key : String) (value : Mapping) :
    m.addOpt key (nested value) = m.addMapNonEmpty key value := by
  unfold nested addMapNonEmpty
  split <;> rfl

theorem ofPairs_eq_ofFields {α} [ToNode α] (named : List (String × α)) :
    ofPairs named = ofFields (named.map fun pair => (pair.1, some (toNode pair.2))) := by
  rw [ofPairs, ofFields, List.foldl_map]
  rfl

/-! ### Present fields -/

theorem present_cons_none (name : String) (fields : List (String × Option Node)) :
    present ((name, none) :: fields) = present fields := rfl

theorem present_cons_some (name : String) (value : Node) (fields : List (String × Option Node)) :
    present ((name, some value) :: fields) = (name, value) :: present fields := rfl

theorem mem_present {fields : List (String × Option Node)} {name : String} {value : Node} :
    (name, value) ∈ present fields ↔ (name, some value) ∈ fields := by
  simp only [present, List.mem_filterMap, Option.map_eq_some_iff, Prod.mk.injEq]
  constructor
  · rintro ⟨⟨key, found⟩, member, value, rfl, rfl, rfl⟩
    exact member
  · intro member
    exact ⟨_, member, value, rfl, rfl, rfl⟩

theorem present_map_some {α} (items : List α) (name : α → String) (value : α → Node) :
    present (items.map fun a => (name a, some (value a))) = items.map fun a => (name a, value a) := by
  rw [present, List.filterMap_map, ← List.filterMap_eq_map]
  rfl

theorem names_present_sublist (fields : List (String × Option Node)) :
    List.Sublist ((present fields).map (·.1)) (fields.map (·.1)) := by
  induction fields with
  | nil => exact .slnil
  | cons field fields ih =>
    obtain ⟨name, value⟩ := field
    cases value with
    | none => exact ih.cons _
    | some value => exact ih.cons_cons _

/-- Which names are left is decided by any test that holds of the fields with a value and of no others. -/
theorem names_present_eq_filter {fields : List (String × Option Node)} {given : String → Bool}
    (told : ∀ field ∈ fields, given field.1 = field.2.isSome) :
    (present fields).map (·.1) = (fields.map (·.1)).filter given := by
  induction fields with
  | nil => rfl
  | cons field fields ih =>
    obtain ⟨name, value⟩ := field
    obtain ⟨first, others⟩ := List.forall_mem_cons.mp told
    cases value with
    | none =>
      have absent : ¬ given name = true := by simp [first]
      rw [present_cons_none, List.map_cons, List.filter_cons_of_neg absent, ih others]
    | some value => rw [present_cons_some, List.map_cons, List.map_cons, List.filter_cons_of_pos first, ih others]

theorem distinct_present {fields : List (String × Option Node)} (distinct : (fields.map (·.1)).Nodup) :
    ((present fields).map (·.1)).Nodup :=
  (names_present_sublist fields).nodup distinct

theorem present_injective {fields fields' : List (String × Option Node)}
    (names : fields.map (·.1) = fields'.map (·.1)) (distinct : (fields.map (·.1)).Nodup)
    (same : present fields = present fields') : fields = fields' := by
  induction fields generalizing fields' with
  | nil => exact (List.map_eq_nil_iff.mp names.symm).symm
  | cons field fields ih =>
    obtain ⟨name, value⟩ := field
    cases fields' with
    | nil => cases names
    | cons field' fields' =>
      obtain ⟨name', value'⟩ := field'
      simp only [List.map_cons, List.cons.injEq] at names
      obtain ⟨rfl, names⟩ := names
      obtain ⟨missing, others⟩ := List.nodup_cons.mp distinct
      -- a field without a value is told from one with a value by its name, which no later field has
      have absent : ∀ {rest : List (String × Option Node)} {value : Node}, name ∉ rest.map (·.1) →
          (name, value) ∉ present rest := fun missing member =>
        missing (List.mem_map_of_mem (f := (·.1)) (mem_present.mp member))
      cases value with
      | none =>
        cases value' with
        | none => rw [ih names others same]
        | some value' =>
          rw [present_cons_none, present_cons_some] at same
          exact absurd (same ▸ List.mem_cons_self) (absent missing)
      | some value =>
        cases value' with
        | none =>
          rw [present_cons_none, present_cons_some] at same
          exact absurd (same ▸ List.mem_cons_self) (absent (names ▸ missing))
        | some value' =>
          rw [present_cons_some, present_cons_some] at same
          obtain ⟨first, rest⟩ := List.cons.inj same
          rw [(Prod.mk.inj first).2, ih names others rest]

/-! ### Entries -/

theorem pairs_injective {first second : List (String × Node)} (same : pairs first = pairs second) :
    first = second := by
  refine (List.map_inj_right ?_).mp same
  rintro ⟨name, value⟩ ⟨name', value'⟩ same
  obtain ⟨key, value⟩ := Prod.mk.inj same
  exact Prod.ext (Node.str.inj key) value

theorem keys_pairs (named : List (String × Node)) :
    (pairs named).map (·.1) = (named.map (·.1)).map .str := by
  simp [pairs]

theorem upsert_of_new {found : Node → Bool} {entries : List (Node × Node)}
    (new : ∀ entry ∈ entries, found entry.1 = false) (key value : Node) :
    upsert found key value entries = entries ++ [(key, value)] := by
  induction entries with
  | nil => rfl
  | cons entry entries ih =>
    obtain ⟨other, new⟩ := List.forall_mem_cons.mp new
    rw [upsert, other, if_neg Bool.false_ne_true, ih new, List.cons_append]

theorem entries_insertString_of_new {m : Mapping} {named : List (String × Node)}
    (known : m.entries = pairs named) {name : String} (new : name ∉ named.map (·.1)) (value : Node) :
    (m.insertString name value).2.entries = pairs (named ++ [(name, value)]) := by
  have other : ∀ entry ∈ pairs named, (entry.1 == Node.str name) = false := by
    intro entry member
    obtain ⟨field, found, rfl⟩ := List.mem_map.mp member
    rw [Node.beq_str_str, beq_eq_false_iff_ne]
    exact fun same => new (List.mem_map.mpr ⟨field, found, same⟩)
  rw [insertString, write, known, upsert_of_new other]
  simp [pairs]

/-- Where no name stands twice, no field takes the place of another. -/
theorem entries_ofFields {fields : List (String × Option Node)}
    (distinct : ((present fields).map (·.1)).Nodup) :
    (ofFields fields).entries = pairs (present fields) := by
  -- on the fields still to be written, behind those that `m` holds
  have written : ∀ (rest : List (String × Option Node)) (m : Mapping) (front : List (String × Node)),
      m.entries = pairs front → ((front ++ present rest).map (·.1)).Nodup →
      (rest.foldl (fun m field => m.addOpt field.1 field.2) m).entries =
        pairs (front ++ present rest) := by
    intro rest
    induction rest with
    | nil => intro m front known _; simpa [present] using known
    | cons field rest ih =>
      obtain ⟨name, value⟩ := field
      intro m front known distinct
      cases value with
      | none => exact ih m front known distinct
      | some value =>
        rw [present_cons_some, List.append_cons] at distinct ⊢
        refine ih _ _ (entries_insertString_of_new known ?_ value) distinct
        rw [List.map_append, List.map_append] at distinct
        intro member
        exact (List.nodup_append.mp (List.nodup_append.mp distinct).1).2.2 name member name (by simp) rfl
  exact written fields .empty [] rfl distinct

theorem entries_ofPairs {α} [ToNode α] {named : List (String × α)} (distinct : (named.map (·.1)).Nodup) :
    (ofPairs named).entries = pairs (named.map fun pair => (pair.1, toNode pair.2)) := by
  have shown := present_map_some named (·.1) (toNode ·.2)
  rw [ofPairs_eq_ofFields, entries_ofFields (by rwa [shown, List.map_map]), shown]

theorem lookup?_pairs {named : List (String × Node)} (distinct : (named.map (·.1)).Nodup)
    {name : String} {value : Node} (member : (name, value) ∈ named) :
    Node.lookup? name (pairs named) = some value := by
  induction named with
  | nil => cases member
  | cons field named ih =>
    obtain ⟨missing, distinct⟩ := List.nodup_cons.mp distinct
    rcases List.mem_cons.mp member with rfl | member
    · simp [Node.lookup?, pairs, Node.asString?]
    · have differs : field.1 ≠ name := fun same =>
        missing (List.mem_map.mpr ⟨_, member, same.symm⟩)
      rw [← ih distinct member]
      simp [Node.lookup?, pairs, Node.asString?, differs]

theorem lookup?_pairs_of_new {named : List (String × Node)} {name : String} (new : name ∉ named.map (·.1)) :
    Node.lookup? name (pairs named) = none := by
  rw [Node.lookup?, Option.map_eq_none_iff, List.find?_eq_none]
  intro entry member
  obtain ⟨field, found, rfl⟩ := List.mem_map.mp member
  have differs : field.1 ≠ name := fun same => new (List.mem_map.mpr ⟨field, found, same⟩)
  simpa [Node.asString?] using differs

theorem name_mem_present_iff {fields : List (String × Option Node)} (distinct : (fields.map (·.1)).Nodup)
    {name : String} {value : Option Node} (member : (name, value) ∈ fields) :
    name ∈ (present fields).map (·.1) ↔ value.isSome = true := by
  constructor
  · intro known
    obtain ⟨⟨_, shown⟩, found, rfl⟩ := List.mem_map.mp known
    have same := List.inj_on_of_nodup_map distinct member (mem_present.mp found) rfl
    rw [(Prod.mk.inj same).2]
    rfl
  · intro filled
    obtain ⟨shown, rfl⟩ := Option.isSome_iff_exists.mp filled
    exact List.mem_map_of_mem (f := (·.1)) (mem_present.mpr member)

/-- A look-up under the name of a field gives its value, if it has one. -/
theorem get?_present {fields : List (String × Option Node)} (distinct : (fields.map (·.1)).Nodup)
    {name : String} {value : Option Node} (member : (name, value) ∈ fields) :
    (Node.map (pairs (present fields))).get? name = value := by
  cases value with
  | some value => exact lookup?_pairs (distinct_present distinct) (mem_present.mpr member)
  | none => exact lookup?_pairs_of_new fun known => by cases (name_mem_present_iff distinct member).mp known

/-! ### Names that are written again -/

/-- Under names, a mapping is written like a map in order of insertion. -/
theorem upsert_pairs (name : String) (value : Node) (named : List (String × Node)) :
    upsert (· == .str name) (.str name) value (pairs named) = pairs (OrderedMap.put name value named) := by
  induction named with
  | nil => rfl
  | cons field named ih =>
    show upsert _ _ _ ((.str field.1, field.2) :: pairs named) = _
    rw [upsert, OrderedMap.put, Node.beq_str_str, ih]
    by_cases same : field.1 = name
    · rw [if_pos (beq_iff_eq.mpr same), if_pos same]
      rfl
    · rw [if_neg (mt beq_iff_eq.mp same), if_neg same]
      rfl

theorem entries_ofPairs_eq_ofList {α} [ToNode α] (named : List (String × α)) :
    (ofPairs named).entries = pairs (OrderedMap.ofList (named.map fun pair => (pair.1, toNode pair.2))).entries := by
  induction named using List.reverseRecOn with
  | nil => rfl
  | append_singleton named pair ih =>
    rw [ofPairs, List.foldl_concat, ← ofPairs, List.map_append, List.map_singleton, OrderedMap.ofList_concat,
      OrderedMap.entries_insert, ← upsert_pairs, ← ih]
    rfl

/-- Of the values written under a name the last one is kept, in the place of the first. -/
theorem entries_ofPairs_lastOfEach {α β} [ToNode β] (items : List α) (name : α → String) (value : α → β) :
    (ofPairs (items.map fun a => (name a, value a))).entries =
      pairs ((lastOfEach name items).map fun a => (name a, toNode (value a))) := by
  rw [entries_ofPairs_eq_ofList, OrderedMap.entries_ofList, List.map_map, lastOfEach_map]
  rfl

end CiPipeline.Mapping
