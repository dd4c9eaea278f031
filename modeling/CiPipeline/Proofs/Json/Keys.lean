import CiPipeline.Node.Json
import CiPipeline.Proofs.Node.Dictionary
import CiPipeline.Proofs.Node.Every

/-!
# Keys that JSON refuses

`allKeys` are the keys in a node, at every depth, in reading order. Values always have a text, so the
fault of a node is that of the first of these keys that has one (`fault?_jsonText`), whatever the
texts are. Where every map was `Written` pair by pair, the keys are scalars, and of scalars a `Lawful`
writer refuses null and the floats that are not finite: `json_error_iff`. `keyText` is such a writer.
-/

namespace CiPipeline

namespace Binary64

theorem isFinite_eq_false_iff {x : Binary64} :
    x.isFinite = false ↔ x.isNaN = true ∨ x.isInfinite = true := by
  simp only [isFinite, isNaN, isInfinite, bne_eq_false_iff_eq, Bool.and_eq_true, beq_iff_eq,
    bne_iff_ne, ← and_or_left]
  exact (and_iff_left (ne_or_eq _ _)).symm

end Binary64

namespace Json

def fault? {ε α : Type} : Except ε α → Option ε
  | .error e => some e
  | .ok _ => none

theorem fault?_eq_some_iff {ε α : Type} {outcome : Except ε α} {e : ε} :
    fault? outcome = some e ↔ outcome = .error e := by
  cases outcome <;> simp [fault?]

theorem fault?_eq_none_iff {ε α : Type} {outcome : Except ε α} :
    fault? outcome = none ↔ ∃ a, outcome = .ok a := by
  cases outcome <;> simp [fault?]

/-- What comes second is only reached when there is no fault before it. -/
theorem fault?_bind {ε α β : Type} {first : Except ε α} {next : α → Except ε β} {later : Option ε}
    (same : ∀ a, fault? (next a) = later) : fault? (first >>= next) = (fault? first).or later := by
  cases first with
  | error e => rfl
  | ok a => exact same a

theorem fault?_bind_pure {ε α β : Type} (first : Except ε α) (f : α → β) :
    fault? (first >>= fun a => pure (f a)) = fault? first := by
  cases first <;> rfl

end Json

namespace Node
open Json

/-! ### Keys in reading order -/

mutual

/-- The keys in a node, at every depth: items and pairs in order, each key before its value. -/
def allKeys : Node → List Node
  | list items => allKeysItems items
  | map entries => allKeysEntries entries
  | null | bool _ | int _ | float _ | str _ => []

def allKeysItems : List Node → List Node
  | [] => []
  | item :: items => item.allKeys ++ allKeysItems items

def allKeysEntries : List (Node × Node) → List Node
  | [] => []
  | (key, value) :: entries => key :: (value.allKeys ++ allKeysEntries entries)

end

theorem allKeysItems_eq_flatMap (items : List Node) : allKeysItems items = items.flatMap allKeys := by
  induction items with
  | nil => rfl
  | cons item items ih => rw [allKeysItems, ih, List.flatMap_cons]

theorem allKeysEntries_eq_flatMap (entries : List (Node × Node)) :
    allKeysEntries entries = entries.flatMap fun entry => entry.1 :: entry.2.allKeys := by
  induction entries with
  | nil => rfl
  | cons entry entries ih => rw [allKeysEntries, ih, List.flatMap_cons, List.cons_append]

theorem allKeys_list (items : List Node) : (list items).allKeys = items.flatMap allKeys := by
  rw [allKeys, allKeysItems_eq_flatMap]

theorem allKeys_map (entries : List (Node × Node)) :
    (map entries).allKeys = entries.flatMap fun entry => entry.1 :: entry.2.allKeys := by
  rw [allKeys, allKeysEntries_eq_flatMap]

theorem allKeys_of_isScalar {n : Node} (scalar : n.isScalar = true) : n.allKeys = [] := by
  cases n with
  | list | map => contradiction
  | _ => rw [allKeys]

theorem Every.allKeys {key value : Node → Prop} {n : Node} (every : n.Every key value) :
    ∀ k ∈ n.allKeys, key k := by
  induction every with
  | scalar scalar _ => simp [allKeys_of_isScalar scalar]
  | list _ ih =>
    intro k member
    rw [allKeys_list] at member
    obtain ⟨item, known, deeper⟩ := List.mem_flatMap.mp member
    exact ih item known k deeper
  | map keys _ ih =>
    intro k member
    rw [allKeys_map] at member
    obtain ⟨entry, known, found⟩ := List.mem_flatMap.mp member
    rcases List.mem_cons.mp found with rfl | deeper
    · exact keys entry known
    · exact ih entry known k deeper

/-- `part` is the node itself or stands in it, at any depth, as an item or as a value. -/
inductive Part (part : Node) : Node → Prop where
  | self : Part part part
  | item {items : List Node} {item : Node} (member : item ∈ items) (deeper : Part part item) :
      Part part (.list items)
  | value {entries : List (Node × Node)} {entry : Node × Node} (member : entry ∈ entries)
      (deeper : Part part entry.2) : Part part (.map entries)

theorem mem_allKeys_of_part {entries : List (Node × Node)} {entry : Node × Node} {n : Node}
    (part : Part (map entries) n) (member : entry ∈ entries) : entry.1 ∈ n.allKeys := by
  induction part with
  | self =>
    rw [allKeys_map]
    exact List.mem_flatMap.mpr ⟨entry, member, List.mem_cons_self⟩
  | item known _ ih =>
    rw [allKeys_list]
    exact List.mem_flatMap.mpr ⟨_, known, ih⟩
  | value known _ ih =>
    rw [allKeys_map]
    exact List.mem_flatMap.mpr ⟨_, known, List.mem_cons_of_mem _ ih⟩

theorem exists_part_of_mem_allKeys {key value : Node → Prop} {n : Node} (every : n.Every key value) :
    ∀ k ∈ n.allKeys, ∃ entries, Part (map entries) n ∧ ∃ entry ∈ entries, entry.1 = k := by
  induction every with
  | scalar scalar _ => simp [allKeys_of_isScalar scalar]
  | list _ ih =>
    intro k member
    rw [allKeys_list] at member
    obtain ⟨item, known, deeper⟩ := List.mem_flatMap.mp member
    obtain ⟨entries, part, found⟩ := ih item known k deeper
    exact ⟨entries, .item known part, found⟩
  | map _ _ ih =>
    intro k member
    rw [allKeys_map] at member
    obtain ⟨entry, known, found⟩ := List.mem_flatMap.mp member
    rcases List.mem_cons.mp found with rfl | deeper
    · exact ⟨_, .self, entry, known, rfl⟩
    · obtain ⟨entries, part, found⟩ := ih entry known k deeper
      exact ⟨entries, .value known part, found⟩

theorem exists_mem_allKeys_iff {key value : Node → Prop} {n : Node} (every : n.Every key value)
    {refused : Node → Prop} : (∃ key ∈ n.allKeys, refused key) ↔
      ∃ entries, Part (map entries) n ∧ ∃ entry ∈ entries, refused entry.1 := by
  constructor
  · rintro ⟨key, member, refuses⟩
    obtain ⟨entries, part, entry, known, rfl⟩ := exists_part_of_mem_allKeys every key member
    exact ⟨entries, part, entry, known, refuses⟩
  · rintro ⟨entries, part, entry, known, refuses⟩
    exact ⟨entry.1, mem_allKeys_of_part part known, refuses⟩

/-! ### The first fault -/

section
variable (writeKey : KeyWriter)

mutual

/-- The fault of a node is that of the first key that has one. -/
theorem fault?_jsonText : ∀ n : Node,
    fault? (n.jsonText writeKey) = n.allKeys.findSome? fun key => fault? (writeKey key)
  | list items => by
    rw [jsonText, fault?_bind_pure, allKeys, fault?_jsonItems]
  | map entries => by
    rw [jsonText, fault?_bind_pure, allKeys, fault?_jsonEntries]
  | null | bool _ | int _ | float _ | str _ => by
    rw [jsonText, allKeys]
    rfl

theorem fault?_jsonItems : ∀ items : List Node,
    fault? (jsonItems writeKey items) = (allKeysItems items).findSome? fun key => fault? (writeKey key)
  | [] => rfl
  | item :: items => by
    rw [jsonItems, fault?_bind fun _ => fault?_bind_pure _ _, allKeysItems, List.findSome?_append,
      fault?_jsonText item, fault?_jsonItems items]

theorem fault?_jsonEntries : ∀ entries : List (Node × Node),
    fault? (jsonEntries writeKey entries) = (allKeysEntries entries).findSome? fun key => fault? (writeKey key)
  | [] => rfl
  | (key, value) :: entries => by
    rw [jsonEntries, fault?_bind fun _ => fault?_bind fun _ => fault?_bind_pure _ _, allKeysEntries,
      List.findSome?_cons, List.findSome?_append, fault?_jsonText value, fault?_jsonEntries entries]
    cases fault? (writeKey key) <;> rfl

end

end

/-! ### Written nodes -/

/-- Each map in the node, at any depth, is what some writes leave of the empty mapping. -/
inductive Written : Node → Prop where
  | scalar {n : Node} (kind : n.isScalar = true) : Written n
  | list {items : List Node} (each : ∀ item ∈ items, Written item) : Written (.list items)
  | map {writes : List Mapping.Write} (values : ∀ w ∈ writes, Written w.value) :
      Written (.map (Mapping.after .empty writes).entries)

theorem every_after {key value : Node → Prop} (scalars : ∀ k : Node, k.isScalar = true → key k)
    {writes : List Mapping.Write} (values : ∀ w ∈ writes, w.value.Every key value) :
    (map (Mapping.after .empty writes).entries).Every key value := by
  induction writes using List.reverseRecOn with
  | nil =>
    have nothing : (Mapping.after .empty []).entries = [] := rfl
    rw [nothing, every_map_iff]
    exact ⟨List.forall_mem_nil _, List.forall_mem_nil _⟩
  | append_singleton writes w ih =>
    obtain ⟨earlier, last⟩ := List.forall_mem_append.mp values
    rw [Mapping.after_concat]
    cases target : w.key? with
    | none =>
      rw [Mapping.apply_of_refused target]
      exact ih earlier
    | some k =>
      rw [Mapping.apply_of_accepted target]
      exact every_upsert (ih earlier) (scalars k.node k.scalar) (last w (.head _))

theorem every_of_written {n : Node} (written : n.Written) :
    n.Every (fun key => key.isScalar = true) fun _ => True := by
  induction written with
  | scalar kind => exact .scalar kind trivial
  | list _ ih => exact .list ih
  | map _ ih => exact every_after (fun _ scalar => scalar) ih

/-! ### Keys that are refused -/

/-- The scalars that cannot be keys, each with what is said against it. -/
inductive RefusedKey : Node → String → Prop where
  | null : RefusedKey null "key must be a string"
  | float {x : Binary64} (endless : x.isNaN = true ∨ x.isInfinite = true) :
      RefusedKey (float x) "float key must be finite (got NaN or +/-inf)"

end Node

/-- The scalars that are refused are these alone, and each for its reason. -/
structure Json.KeyWriter.Lawful (writeKey : KeyWriter) : Prop where
  refuses : ∀ {key : Node} {e : JsonError}, key.RefusedKey e.message → writeKey key = .error e
  writes : ∀ {key : Node}, key.isScalar = true → (∀ message, ¬ key.RefusedKey message) →
    ∃ text, writeKey key = .ok text

namespace Node
open Json

/-- Whatever is said against a key is the message of an error. -/
theorem exists_message_iff {key : Node} :
    (∃ e : JsonError, RefusedKey key e.message) ↔ ∃ message, RefusedKey key message := by
  constructor
  · rintro ⟨e, refused⟩
    exact ⟨e.message, refused⟩
  · rintro ⟨message, refused⟩
    cases refused with
    | null => exact ⟨.keyNotString, .null⟩
    | float endless => exact ⟨.keyNotFinite, .float endless⟩

theorem fault?_iff_of_lawful {writeKey : KeyWriter} (lawful : writeKey.Lawful) {key : Node}
    (scalar : key.isScalar = true) {e : JsonError} :
    fault? (writeKey key) = some e ↔ RefusedKey key e.message := by
  rw [fault?_eq_some_iff]
  constructor
  · intro fault
    by_cases said : ∃ message, RefusedKey key message
    · obtain ⟨e', refused⟩ := exists_message_iff.mpr said
      rw [lawful.refuses refused] at fault
      cases fault
      exact refused
    · obtain ⟨text, written⟩ := lawful.writes scalar (not_exists.mp said)
      rw [written] at fault
      cases fault
  · exact lawful.refuses

theorem lawful_keyText : KeyWriter.Lawful keyText where
  refuses := by
    intro key e refused
    generalize said : e.message = message at refused
    cases refused with
    | null =>
      cases e with
      | keyNotString => rfl
      | keyNotFinite => exact absurd said (by decide)
    | float endless =>
      cases e with
      | keyNotString => exact absurd said (by decide)
      | keyNotFinite =>
        rw [keyText, Binary64.isFinite_eq_false_iff.mpr endless]
        rfl
  writes := by
    intro key scalar accepted
    cases key with
    | null => exact absurd .null (accepted _)
    | float x =>
      cases finite : x.isFinite with
      | true => exact ⟨_, if_pos finite⟩
      | false => exact absurd (.float (Binary64.isFinite_eq_false_iff.mp finite)) (accepted _)
    | bool | int | str => exact ⟨_, rfl⟩
    | list | map => contradiction

/-! ### Nodes that have no text -/

section
variable {writeKey : KeyWriter}

theorem jsonWith_eq_error_iff {n : Node} {e : JsonError} :
    n.jsonWith writeKey = .error e ↔ n.allKeys.findSome? (fun key => fault? (writeKey key)) = some e := by
  rw [← fault?_jsonText, fault?_eq_some_iff, jsonWith]
  cases n.jsonText writeKey <;> simp [Except.map]

theorem jsonWith_of_isScalar {value : Node} (scalar : value.isScalar = true) :
    ∃ text, value.jsonWith writeKey = .ok text := by
  rw [← fault?_eq_none_iff, Option.eq_none_iff_forall_ne_some]
  intro e fault
  rw [fault?_eq_some_iff, jsonWith_eq_error_iff, allKeys_of_isScalar scalar] at fault
  cases fault

theorem exists_jsonWith_error_iff (lawful : writeKey.Lawful) {n : Node}
    (scalars : ∀ key ∈ n.allKeys, key.isScalar = true) :
    (∃ e, n.jsonWith writeKey = .error e) ↔ ∃ key ∈ n.allKeys, ∃ message, RefusedKey key message := by
  simp only [jsonWith_eq_error_iff, ← Option.isSome_iff_exists, List.findSome?_isSome_iff]
  refine exists_congr fun key => and_congr_right fun member => ?_
  rw [Option.isSome_iff_exists]
  simp only [fault?_iff_of_lawful lawful (scalars key member), exists_message_iff]

theorem jsonWith_eq_error_iff_first (lawful : writeKey.Lawful) {n : Node}
    (scalars : ∀ key ∈ n.allKeys, key.isScalar = true) {e : JsonError} :
    n.jsonWith writeKey = .error e ↔ ∃ before key after, n.allKeys = before ++ key :: after ∧
      RefusedKey key e.message ∧ ∀ earlier ∈ before, ∀ message, ¬ RefusedKey earlier message := by
  rw [jsonWith_eq_error_iff, List.findSome?_eq_some_iff]
  refine exists_congr fun before => exists_congr fun key => exists_congr fun after =>
    and_congr_right fun cut => ?_
  rw [cut, List.forall_mem_append, List.forall_mem_cons] at scalars
  obtain ⟨earlier, scalar, -⟩ := scalars
  rw [fault?_iff_of_lawful lawful scalar]
  -- that a key has no fault is that no message is said against it, as it is a scalar too
  refine and_congr_right fun _ => forall₂_congr fun k member => ?_
  simp only [Option.eq_none_iff_forall_ne_some, ne_eq, fault?_iff_of_lawful lawful (earlier k member),
    ← not_exists, exists_message_iff]

end

/-- However the keys that are not refused are written, a node whose maps were written pair by pair has
no JSON text exactly when some map in it, at any depth, has null or a float that is not finite as a key.
The error is that of the first such key in reading order; the values have no part in it, and each of
them has a text. -/
theorem json_error_iff {writeKey : KeyWriter} (lawful : writeKey.Lawful) {n : Node} (written : n.Written) :
    ((∃ e, n.jsonWith writeKey = .error e) ↔
      ∃ entries, (map entries).Part n ∧ ∃ entry ∈ entries, ∃ message, RefusedKey entry.1 message) ∧
    (∀ e, n.jsonWith writeKey = .error e ↔ ∃ before key after, n.allKeys = before ++ key :: after ∧
      RefusedKey key e.message ∧ ∀ earlier ∈ before, ∀ message, ¬ RefusedKey earlier message) ∧
    (∀ m : Node, m.allKeys = n.allKeys →
      ∀ e, m.jsonWith writeKey = .error e ↔ n.jsonWith writeKey = .error e) ∧
    (∀ value : Node, value.isScalar = true → ∃ text, value.jsonWith writeKey = .ok text) := by
  have every := every_of_written written
  refine ⟨?fails, fun e => jsonWith_eq_error_iff_first lawful every.allKeys, ?values,
    fun _ => jsonWith_of_isScalar⟩
  case fails =>
    exact (exists_jsonWith_error_iff lawful every.allKeys).trans (exists_mem_allKeys_iff every)
  case values =>
    intro m same e
    rw [jsonWith_eq_error_iff, jsonWith_eq_error_iff, same]

/-- A value that is no number, an endless key below a sound one, and a null key behind both. -/
def endlessKeys : Node :=
  list [Mapping.notANumber, map (Mapping.after .empty
    [.string "a" (map (Mapping.after .empty [.node (float ⟨0xfff0000000000000⟩) null]).entries),
      .node null null]).entries]

theorem written_endlessKeys : endlessKeys.Written := by
  have inner : (map (Mapping.after .empty [.node (float ⟨0xfff0000000000000⟩) null]).entries).Written :=
    .map (List.forall_mem_singleton.mpr (.scalar rfl))
  refine .list (List.forall_mem_cons.mpr ⟨.scalar rfl, List.forall_mem_singleton.mpr (.map ?_)⟩)
  exact List.forall_mem_cons.mpr ⟨inner, List.forall_mem_singleton.mpr (.scalar rfl)⟩

theorem json_endlessKeys : KeyWriter.Lawful keyText ∧ endlessKeys.Written ∧
    endlessKeys.json = .error .keyNotFinite ∧ (∃ text, Mapping.notANumber.json = .ok text) := by
  obtain ⟨-, first, -, values⟩ := json_error_iff lawful_keyText written_endlessKeys
  refine ⟨lawful_keyText, written_endlessKeys, (first _).mpr ?_, values _ rfl⟩
  refine ⟨[str "a"], float ⟨0xfff0000000000000⟩, [null], rfl, .float (by decide), ?_⟩
  intro earlier member message refused
  rw [List.mem_singleton.mp member] at refused
  cases refused

end Node
end CiPipeline
