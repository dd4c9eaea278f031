import CiPipeline.Node.Mapping
import CiPipeline.Proofs.Collection.FirstOccurrence

/-!
# Mappings as dictionaries

After any writes a mapping is a function of their history (`after_records`): its keys are scalars in
the order of their first write, and each holds the value written last. The two ways to write compare
keys differently, but agree on strings (`insert_str`), and on scalars the comparison is equality of
nodes, floats being told apart by their bits (`Node.sameKey_iff_eq`).
-/

namespace CiPipeline

namespace Node

theorem beq_def (a b : Node) : (a == b) = a.beq b := rfl

theorem sameKey_float (x y : Binary64) : (float x).sameKey (.float y) = (x.bits == y.bits) := rfl

theorem sameKey_eq_beq {l : Node} (exact : ∀ x, l ≠ .float x) (k : Node) :
    k.sameKey l = (k == l) := by
  cases l with
  | float x => exact absurd rfl (exact x)
  | _ => cases k <;> rfl

theorem beq_iff_eq_of_isScalar {k l : Node} (scalar : l.isScalar = true) (exact : ∀ x, l ≠ .float x) :
    (k == l) = true ↔ k = l := by
  cases l with
  | float x => exact absurd rfl (exact x)
  | list | map => cases scalar
  | _ => cases k <;> simp [beq_def, beq]

theorem sameKey_iff_eq {k l : Node} (scalar : l.isScalar = true) : k.sameKey l = true ↔ k = l := by
  cases l with
  | float y =>
    cases k with
    | float x =>
      rw [sameKey_float, beq_iff_eq, float.injEq]
      exact ⟨congrArg Binary64.mk, congrArg Binary64.bits⟩
    | _ => simp [sameKey, beq_def, beq]
  | _ =>
    rw [sameKey_eq_beq (by simp)]
    exact beq_iff_eq_of_isScalar scalar (by simp)

end Node

/-- A node that can be a key. -/
@[ext]
structure Key where
  node : Node
  scalar : node.isScalar = true

namespace Key

def str (s : String) : Key := ⟨.str s, rfl⟩

def found (key : Key) (n : Node) : Bool := n.sameKey key.node

theorem found_iff {key : Key} {n : Node} : key.found n = true ↔ n = key.node :=
  Node.sameKey_iff_eq key.scalar

instance : DecidableEq Key := fun k l =>
  decidable_of_iff (l.found k.node = true) (found_iff.trans Key.ext_iff.symm)

end Key

namespace Mapping

inductive Write where
  | node (key value : Node)
  | string (key : String) (value : Node)

/-- A refused write leaves the mapping as it was. -/
def apply (m : Mapping) : Write → Mapping
  | .node key value =>
    match m.insert key value with
    | .ok (_, written) => written
    | .error _ => m
  | .string key value => (m.insertString key value).2

def after (m : Mapping) (writes : List Write) : Mapping := writes.foldl apply m

theorem after_concat (m : Mapping) (writes : List Write) (w : Write) :
    m.after (writes ++ [w]) = (m.after writes).apply w := by
  rw [after, after, List.foldl_append]
  rfl

/-! ### The history -/

namespace Write

/-- The key under which something is written, unless the write is refused. -/
def key? : Write → Option Key
  | node key _ => if scalar : key.isScalar = true then some ⟨key, scalar⟩ else none
  | string key _ => some (.str key)

def value : Write → Node
  | node _ value => value
  | string _ value => value

def valueAt? (key : Key) (w : Write) : Option Node := if w.key? = some key then some w.value else none

end Write

/-- Each key once, in the order of the first writes. -/
def writtenKeys (writes : List Write) : List Key := (writes.filterMap Write.key?).eraseDups

def lastValue? (writes : List Write) (key : Key) : Option Node := writes.reverse.findSome? (·.valueAt? key)

theorem writtenKeys_concat_of_refused {w : Write} (refused : w.key? = none) (writes : List Write) :
    writtenKeys (writes ++ [w]) = writtenKeys writes := by
  simp [writtenKeys, refused]

theorem writtenKeys_concat {w : Write} {key : Key} (accepted : w.key? = some key) (writes : List Write) :
    writtenKeys (writes ++ [w]) =
      if key ∈ writtenKeys writes then writtenKeys writes else writtenKeys writes ++ [key] := by
  rw [writtenKeys, List.filterMap_append, List.filterMap_cons_some accepted]
  exact eraseDups_concat _ key

theorem lastValue?_concat (writes : List Write) (w : Write) (key : Key) :
    lastValue? (writes ++ [w]) key = (w.valueAt? key).or (lastValue? writes key) := by
  rw [lastValue?, List.reverse_concat, List.findSome?_cons]
  cases w.valueAt? key <;> rfl

/-! ### One write -/

theorem insertString_eq_write (m : Mapping) (s : String) (value : Node) :
    m.insertString s value = m.write (Key.str s).found (Key.str s).node value := by
  rw [insertString]
  congr 1
  funext n
  exact (Node.sameKey_eq_beq (by simp) n).symm

theorem insert_of_isCollection {key : Node} (collection : key.isCollection = true) (m : Mapping)
    (value : Node) :
    m.insert key value = .error (.nonScalarKey (String.ofList (Text.trimEnd key.documentText))) := by
  rw [insert, if_pos collection]

theorem insert_key (m : Mapping) (key : Key) (value : Node) :
    m.insert key.node value = .ok (m.write key.found key.node value) := by
  rw [insert, Node.isScalar_eq_true_iff.mp key.scalar, if_neg Bool.false_ne_true]
  rfl

theorem insert_str (m : Mapping) (s : String) (value : Node) :
    m.insert (.str s) value = .ok (m.insertString s value) := by
  rw [insertString_eq_write]
  exact m.insert_key (.str s) value

theorem apply_of_refused {w : Write} (refused : w.key? = none) (m : Mapping) : m.apply w = m := by
  cases w with
  | node key value =>
    have collection : key.isCollection = true := by
      cases shape : key.isCollection with
      | true => rfl
      | false => simp [Write.key?, Node.isScalar, shape] at refused
    rw [apply, insert_of_isCollection collection]
  | string key value => cases refused

theorem apply_of_accepted {w : Write} {key : Key} (accepted : w.key? = some key) (m : Mapping) :
    m.apply w = (m.write key.found key.node w.value).2 := by
  cases w with
  | node other value =>
    rw [Write.key?] at accepted
    split at accepted
    next scalar =>
      cases accepted
      rw [apply, m.insert_key ⟨other, scalar⟩]
      rfl
    next => cases accepted
  | string s value =>
    cases accepted
    rw [apply, insertString_eq_write]
    rfl

theorem get?_eq_find? (m : Mapping) (s : String) : m.get? s = find? (Key.str s).found m.entries := by
  have sameTest : ∀ n : Node, (n.asString? == some s) = (Key.str s).found n := fun n =>
    (Node.beq_str_eq n s).symm.trans (Node.sameKey_eq_beq (by simp) n).symm
  simp only [get?, Node.lookup?, find?, sameTest]

theorem contains_iff {m : Mapping} {s : String} : m.contains s = true ↔ .str s ∈ m.keys := by
  rw [contains, get?_eq_find?, find?, Option.isSome_map, List.find?_isSome, keys, List.mem_map]
  simp only [Key.found_iff]
  rfl

/-! ### The invariant -/

/-- Where no key stands twice, a look-up at each key gives the value that stands there. -/
theorem entries_of_distinct {entries : List (Node × Node)} {keys : List Key}
    (listed : entries.map (·.1) = keys.map Key.node) (distinct : keys.Nodup) :
    entries.map (fun entry => (entry.1, some entry.2)) =
      keys.map fun key => (key.node, find? key.found entries) := by
  induction keys generalizing entries with
  | nil => rw [List.map_eq_nil_iff.mp listed]; rfl
  | cons key keys ih =>
    obtain ⟨missing, distinct⟩ := List.nodup_cons.mp distinct
    obtain ⟨⟨node, value⟩, entries, rfl, rfl, others⟩ := List.map_eq_cons_iff.mp listed
    rw [List.map_cons, List.map_cons, ih others distinct]
    congr 1
    · simp [find?, Key.found_iff.mpr]
    · refine List.map_congr_left fun other member => ?_
      have differs : other.found key.node = false := Bool.eq_false_iff.mpr fun found =>
        missing (Key.ext (Key.found_iff.mp found) ▸ member)
      rw [find?, find?, List.find?_cons_of_neg (by simpa using differs)]

/-- The mapping holds what the writes wrote. -/
structure Records (writes : List Write) (m : Mapping) : Prop where
  keys : m.keys = (writtenKeys writes).map Key.node
  values : ∀ key : Key, find? key.found m.entries = lastValue? writes key

theorem records_empty : Records [] .empty where
  keys := rfl
  values _ := rfl

namespace Records

variable {writes : List Write} {m : Mapping}

theorem any_found (records : Records writes m) (key : Key) :
    m.keys.any key.found = true ↔ key ∈ writtenKeys writes := by
  rw [records.keys, List.any_map, List.any_eq_true]
  constructor
  · rintro ⟨other, member, found⟩
    rwa [← Key.ext (Key.found_iff.mp found)]
  · intro member
    exact ⟨key, member, Key.found_iff.mpr rfl⟩

theorem apply (records : Records writes m) (w : Write) : Records (writes ++ [w]) (m.apply w) := by
  cases target : w.key? with
  | none =>
    rw [apply_of_refused target]
    refine ⟨by rw [writtenKeys_concat_of_refused target, records.keys], fun key => ?_⟩
    rw [lastValue?_concat, Write.valueAt?, target, if_neg (by simp)]
    exact records.values key
  | some key =>
    rw [apply_of_accepted target]
    refine ⟨?keys, fun other => ?values⟩
    case keys =>
      have step := keys_upsert key.found key.node w.value m.entries
      rw [writtenKeys_concat target]
      by_cases member : key ∈ writtenKeys writes
      · rw [if_pos member, ← records.keys]
        exact step.trans (if_pos ((records.any_found key).mpr member))
      · rw [if_neg member, List.map_append, ← records.keys]
        exact step.trans (if_neg (mt (records.any_found key).mp member))
    case values =>
      rw [lastValue?_concat, Write.valueAt?, target]
      by_cases same : key = other
      · rw [← same, if_pos rfl]
        exact find?_upsert_self key.found key.node w.value m.entries (Key.found_iff.mpr rfl)
      · have differs : ∀ n, key.found n = true → other.found n = false := fun n found =>
          Bool.eq_false_iff.mpr fun found' =>
            same (Key.ext ((Key.found_iff.mp found).symm.trans (Key.found_iff.mp found')))
        rw [if_neg (by simpa using same), Option.none_or, ← records.values other]
        exact find?_upsert_other key.found other.found key.node w.value m.entries
          (differs _ (Key.found_iff.mpr rfl)) differs

theorem after (records : Records writes m) (rest : List Write) :
    Records (writes ++ rest) (m.after rest) := by
  induction rest generalizing writes m with
  | nil => rw [List.append_nil]; exact records
  | cons w rest ih =>
    have grown := ih (records.apply w)
    rwa [List.append_assoc] at grown

theorem entries (records : Records writes m) :
    m.entries.map (fun entry => (entry.1, some entry.2)) =
      (writtenKeys writes).map fun key => (key.node, lastValue? writes key) := by
  simp only [← records.values]
  exact entries_of_distinct records.keys (nodup_eraseDups _)

theorem get? (records : Records writes m) (s : String) : m.get? s = lastValue? writes (.str s) := by
  rw [get?_eq_find?, records.values]

theorem write (records : Records writes m) (key : Key) (value : Node) :
    m.write key.found key.node value = (lastValue? writes key, m.apply (.node key.node value)) := by
  rw [← records.values, Mapping.apply, insert_key]
  rfl

end Records

/-- However a mapping was written, a refused write changes nothing, an accepted one answers with the
value held before, and the entries are the keys in the order of their first write, each with the
value written last. -/
theorem after_records (writes : List Write) :
    (∀ key ∈ (after .empty writes).keys, key.isScalar = true) ∧
    (after .empty writes).keys.Pairwise (fun k l => k.sameKey l = false) ∧
    (∀ x y : Binary64, (Node.float x).sameKey (.float y) = true ↔ x.bits = y.bits) ∧
    (∀ k l : Node, l.isScalar = true → (∀ x, l ≠ .float x) → (k.sameKey l = true ↔ k = l)) ∧
    (after .empty writes).entries.map (fun entry => (entry.1, some entry.2)) =
      (writtenKeys writes).map (fun key => (key.node, lastValue? writes key)) ∧
    (after .empty writes).size = (writtenKeys writes).length ∧
    (∀ s, (after .empty writes).get? s = lastValue? writes (.str s) ∧
      ((after .empty writes).contains s = true ↔ .str s ∈ (after .empty writes).keys)) ∧
    (∀ key value, key.isCollection = true →
      (after .empty writes).insert key value =
        .error (.nonScalarKey (String.ofList (Text.trimEnd key.documentText))) ∧
      after .empty (writes ++ [.node key value]) = after .empty writes) ∧
    (∀ (key : Key) value, (after .empty writes).insert key.node value =
      .ok (lastValue? writes key, after .empty (writes ++ [.node key.node value]))) ∧
    (∀ s value, (after .empty writes).insertString s value =
        (lastValue? writes (.str s), after .empty (writes ++ [.string s value])) ∧
      (after .empty writes).insert (.str s) value = .ok ((after .empty writes).insertString s value)) := by
  have records := records_empty.after writes
  rw [List.nil_append] at records
  refine ⟨?scalars, ?distinct, ?floats, ?others, records.entries, ?size, ?look, ?refused, ?accepted, ?strings⟩
  case scalars =>
    intro node member
    rw [records.keys] at member
    obtain ⟨key, -, rfl⟩ := List.mem_map.mp member
    exact key.scalar
  case distinct =>
    rw [records.keys, List.pairwise_map]
    refine (nodup_eraseDups _).imp fun {k l} differs => Bool.eq_false_iff.mpr fun same => ?_
    exact differs (Key.ext ((Node.sameKey_iff_eq l.scalar).mp same))
  case floats =>
    intro x y
    rw [Node.sameKey_float, beq_iff_eq]
  case others =>
    intro k l scalar _
    exact Node.sameKey_iff_eq scalar
  case size =>
    have length := congrArg List.length records.keys
    rwa [Mapping.keys, List.length_map, List.length_map] at length
  case look =>
    intro s
    exact ⟨records.get? s, contains_iff⟩
  case refused =>
    intro key value collection
    have refused := insert_of_isCollection collection (after .empty writes) value
    refine ⟨refused, ?_⟩
    rw [after_concat, apply, refused]
  case accepted =>
    intro key value
    rw [insert_key, records.write, after_concat]
  case strings =>
    intro s value
    refine ⟨?_, insert_str _ s value⟩
    rw [after_concat, apply, insertString_eq_write, records.write (.str s)]

def notANumber : Node := .float ⟨0x7ff8000000000000⟩

/-- The two zeros, a key that differs from itself as a value, and a string written in both ways. -/
def mixedKeys : List Write :=
  [.node (.float ⟨0⟩) .null, .node (.float ⟨0x8000000000000000⟩) .null, .node notANumber (.int 1),
    .node (.list [.null]) .null, .string "k" .null, .node notANumber (.int 2), .node (.str "k") (.bool true)]

theorem after_mixedKeys :
    (after .empty mixedKeys).size = 4 ∧ (after .empty mixedKeys).get? "k" = some (.bool true) ∧
      (after .empty mixedKeys).insert (.list []) .null = .error (.nonScalarKey "[]") ∧
      (∃ m, (after .empty mixedKeys).insert notANumber .null = .ok (some (.int 2), m)) ∧
      ((Node.str "k").sameKey (.str "l") = true ↔ Node.str "k" = .str "l") := by
  obtain ⟨-, -, -, others, -, size, look, refused, accepted, -⟩ := after_records mixedKeys
  refine ⟨size.trans (by decide), (look "k").1.trans rfl, (refused (.list []) .null rfl).1.trans ?_,
    ⟨_, accepted ⟨notANumber, rfl⟩ .null⟩, others _ _ rfl (by simp)⟩
  · rfl

end Mapping
end CiPipeline
