import CiPipeline.Job.Cache
import CiPipeline.Proofs.Node.Fields

/-!
# Caches from their settings

What any settings leave in a cache can be read off them field by field (`configure_eq`). A label names
nothing of its own, and so a cache is empty exactly when no other setting was made
(`isEmpty_configure_iff`). Three kinds of settings compete for one key of the export, and which of them
wins does not depend on their order (`exports_by_precedence`).
-/

namespace CiPipeline
open Mapping

namespace Cache

/-! ### Settings -/

namespace Setting

def path? : Setting → Option String
  | .path file => some file
  | _ => none

def keyFile? : Setting → Option String
  | .keyFile file => some file
  | _ => none

def key? : Setting → Option String
  | .key text => some text
  | _ => none

def keyLabel? : Setting → Option String
  | .keyLabel label => some label
  | _ => none

def untracked? : Setting → Option Bool
  | .untracked kept => some kept
  | _ => none

def when? : Setting → Option When
  | .when w => some w
  | _ => none

def policy? : Setting → Option CachePolicy
  | .policy chosen => some chosen
  | _ => none

/-- The key of the export to which a setting brings something; a label brings nothing of its own. -/
def field? : Setting → Option String
  | .keyFile _ | .key _ => some "key"
  | .keyLabel _ => none
  | .path _ => some "paths"
  | .untracked _ => some "untracked"
  | .when _ => some "when"
  | .policy _ => some "policy"

end Setting

/-- Paths and key files add up, and of the other settings of a field the last one holds. -/
theorem configure_eq (settings : List Setting) : configure {} settings = {
    paths := settings.filterMap Setting.path?
    keyFiles := settings.filterMap Setting.keyFile?
    key := (settings.filterMap Setting.key?).getLast?
    keyLabel := (settings.filterMap Setting.keyLabel?).getLast?
    untracked := (settings.filterMap Setting.untracked?).getLast?
    when := (settings.filterMap Setting.when?).getLast?
    policy := (settings.filterMap Setting.policy?).getLast? } := by
  induction settings using List.reverseRecOn with
  | nil => rfl
  | append_singleton settings setting ih =>
    rw [configure, List.foldl_concat, ← configure, ih]
    cases setting <;>
      simp [apply, List.filterMap_cons, Setting.path?, Setting.keyFile?, Setting.key?, Setting.keyLabel?,
        Setting.untracked?, Setting.when?, Setting.policy?]

/-! ### Fields -/

def fields (cache : Cache) : List (String × Option Node) :=
  [("key", cache.keyNode?), ("paths", listed cache.paths), ("untracked", cache.untracked.map toNode),
    ("when", cache.when.map toNode), ("policy", cache.policy.map toNode)]

def fieldNames : List String := ["key", "paths", "untracked", "when", "policy"]

theorem Setting.mem_fieldNames {setting : Setting} {name : String} (brought : setting.field? = some name) :
    name ∈ fieldNames := by
  cases setting <;> cases brought <;> decide

theorem Setting.field?_eq_none_iff {setting : Setting} :
    setting.field? = none ↔ ∃ label, setting = .keyLabel label := by
  cases setting <;> simp [field?]

theorem distinct_fields (cache : Cache) : (cache.fields.map (·.1)).Nodup :=
  (by decide : fieldNames.Nodup)

theorem entries_toMapping (cache : Cache) : cache.toMapping.entries = pairs (present cache.fields) := by
  have written : cache.toMapping = ofFields cache.fields := by
    simp only [ofFields, fields, List.foldl_cons, List.foldl_nil, addOpt_map, addOpt_listed]
    rfl
  rw [written, entries_ofFields (distinct_present cache.distinct_fields)]

theorem keyNode?_eq_none_iff {cache : Cache} : cache.keyNode? = none ↔ cache.keyFiles = [] ∧ cache.key = none := by
  rw [keyNode?]
  cases cache.keyFiles <;> simp

/-! ### The export -/

theorem isEmpty_iff_toNode {cache : Cache} : cache.isEmpty = true ↔ toNode cache = .map [] := by
  have shown : toNode cache = .map cache.toMapping.entries := rfl
  rw [shown, isEmpty, Mapping.isEmpty, List.isEmpty_iff, Node.map.injEq]

theorem get?_toNode {cache : Cache} {name : String} {value : Option Node} (member : (name, value) ∈ cache.fields) :
    (toNode cache).get? name = value := by
  have shown : toNode cache = .map (pairs (present cache.fields)) := congrArg Node.map cache.entries_toMapping
  rw [shown]
  exact get?_present cache.distinct_fields member

/-- Key files name a cache together with the label, and a fixed key does not count beside them. -/
theorem keyNode?_of_keyFiles {cache : Cache} (named : cache.keyFiles ≠ []) : cache.keyNode? =
    some (.map ((.str "files", .list (cache.keyFiles.map .str)) ::
      cache.keyLabel.toList.map fun label => (.str "prefix", .str label))) := by
  unfold keyNode?
  rw [if_neg (mt List.isEmpty_iff.mp named)]
  cases cache.keyLabel <;> rfl

theorem keyNode?_of_no_keyFiles {cache : Cache} (unnamed : cache.keyFiles = []) :
    cache.keyNode? = cache.key.map .str := by
  unfold keyNode?
  rw [unnamed]
  rfl

theorem filterMap_keyFile?_ne_nil {settings : List Setting} :
    settings.filterMap Setting.keyFile? ≠ [] ↔ ∃ file, .keyFile file ∈ settings := by
  rw [ne_eq, List.filterMap_eq_nil_iff]
  constructor
  · intro told
    obtain ⟨setting, member, named⟩ : ∃ setting ∈ settings, setting.keyFile? ≠ none := by simpa using told
    cases setting with
    | keyFile file => exact ⟨file, member⟩
    | _ => exact absurd rfl named
  · rintro ⟨file, member⟩ silent
    cases silent _ member

theorem fields_configure (settings : List Setting) : (configure {} settings).fields =
    [("key", (configure {} settings).keyNode?), ("paths", listed (settings.filterMap Setting.path?)),
      ("untracked", (settings.filterMap Setting.untracked?).getLast?.map .bool),
      ("when", (settings.filterMap Setting.when?).getLast?.map fun w => .str w.text),
      ("policy", (settings.filterMap Setting.policy?).getLast?.map fun p => .str p.text)] := by
  rw [configure_eq]
  rfl

/-- A field has no value when no setting brings it one. -/
theorem value_eq_none_iff {settings : List Setting} {name : String} {value : Option Node}
    (member : (name, value) ∈ (configure {} settings).fields) :
    value = none ↔ ∀ setting ∈ settings, setting.field? ≠ some name := by
  rw [fields_configure] at member
  simp only [List.mem_cons, Prod.mk.injEq, List.not_mem_nil, or_false] at member
  rcases member with ⟨rfl, rfl⟩ | ⟨rfl, rfl⟩ | ⟨rfl, rfl⟩ | ⟨rfl, rfl⟩ | ⟨rfl, rfl⟩
  · rw [keyNode?_eq_none_iff, configure_eq, List.getLast?_eq_none_iff, List.filterMap_eq_nil_iff,
      List.filterMap_eq_nil_iff, ← forall₂_and]
    refine forall₂_congr fun setting _ => ?_
    cases setting <;> simp [Setting.keyFile?, Setting.key?, Setting.field?]
  · rw [listed_eq_none_iff, List.filterMap_eq_nil_iff]
    refine forall₂_congr fun setting _ => ?_
    cases setting <;> simp [Setting.path?, Setting.field?]
  all_goals
    rw [Option.map_eq_none_iff, List.getLast?_eq_none_iff, List.filterMap_eq_nil_iff]
    refine forall₂_congr fun setting _ => ?_
    cases setting <;> simp [Setting.untracked?, Setting.when?, Setting.policy?, Setting.field?]

theorem keys_toMapping_configure (settings : List Setting) : (configure {} settings).toMapping.keys =
    (fieldNames.filter fun name => settings.any (·.field? = some name)).map .str := by
  have told : ∀ field ∈ (configure {} settings).fields,
      (settings.any fun setting => setting.field? = some field.1) = field.2.isSome := by
    rintro ⟨name, value⟩ member
    have silent := not_congr (value_eq_none_iff member)
    rw [Bool.eq_iff_iff, Option.isSome_iff_ne_none, ne_eq, silent]
    simp
  have kept := @names_present_eq_filter _ (fun name => settings.any (·.field? = some name)) told
  rw [Mapping.keys, entries_toMapping, keys_pairs, kept]
  rfl

/-- A label alone is nothing, and every other setting stays visible under the key to which it brings
something. -/
theorem isEmpty_configure_iff (settings : List Setting) :
    (configure {} settings).isEmpty = true ↔ ∀ setting ∈ settings, ∃ label, setting = .keyLabel label := by
  have keyless : (configure {} settings).isEmpty = true ↔ (configure {} settings).toMapping.keys = [] := by
    rw [isEmpty, Mapping.isEmpty, List.isEmpty_iff, Mapping.keys, List.map_eq_nil_iff]
  rw [keyless, keys_toMapping_configure, List.map_eq_nil_iff, List.filter_eq_nil_iff]
  constructor
  · intro silent setting member
    cases brought : setting.field? with
    | none => exact Setting.field?_eq_none_iff.mp brought
    | some name =>
      have given : (settings.any fun setting => setting.field? = some name) = true :=
        List.any_eq_true.mpr ⟨setting, member, decide_eq_true brought⟩
      exact absurd given (silent name (Setting.mem_fieldNames brought))
  · intro only name _ given
    obtain ⟨setting, member, brought⟩ := List.any_eq_true.mp given
    obtain ⟨label, rfl⟩ := only setting member
    cases brought

/-- A cache is empty, and is exported as the empty map, when it was given nothing but labels. Key files
name it wherever they stand among the settings, the last label with them, and only without them the last
fixed key does. Paths are kept as they were given, of other settings the last one is, and the fields
stand in a fixed order, each when a setting brings something to it. -/
theorem exports_by_precedence (settings : List Setting) :
    let cache := configure {} settings
    let files := settings.filterMap Setting.keyFile?
    let label? := (settings.filterMap Setting.keyLabel?).getLast?
    (cache.isEmpty = true ↔ ∀ setting ∈ settings, ∃ label, setting = .keyLabel label) ∧
    (cache.isEmpty = true ↔ toNode cache = .map []) ∧
    ((∃ file, .keyFile file ∈ settings) → (toNode cache).get? "key" =
      some (.map ((.str "files", .list (files.map .str)) ::
        label?.toList.map fun label => (.str "prefix", .str label)))) ∧
    ((¬ ∃ file, .keyFile file ∈ settings) →
      (toNode cache).get? "key" = (settings.filterMap Setting.key?).getLast?.map .str) ∧
    (toNode cache).get? "paths" = listed (settings.filterMap Setting.path?) ∧
    (toNode cache).get? "untracked" = (settings.filterMap Setting.untracked?).getLast?.map .bool ∧
    (toNode cache).get? "when" = (settings.filterMap Setting.when?).getLast?.map (fun w => .str w.text) ∧
    (toNode cache).get? "policy" = (settings.filterMap Setting.policy?).getLast?.map (fun p => .str p.text) ∧
    cache.toMapping.keys = (["key", "paths", "untracked", "when", "policy"].filter fun name =>
      settings.any (·.field? = some name)).map .str := by
  intro cache files label?
  have field : ∀ {name value}, (name, value) ∈ cache.fields → (toNode cache).get? name = value := get?_toNode
  have key : (toNode cache).get? "key" = cache.keyNode? := field List.mem_cons_self
  have read : cache = _ := configure_eq settings
  rw [fields_configure] at field
  refine ⟨isEmpty_configure_iff settings, isEmpty_iff_toNode, fun named => ?_, fun unnamed => ?_, field ?paths,
    field ?untracked, field ?when, field ?policy, keys_toMapping_configure settings⟩
  · have some : cache.keyFiles ≠ [] := by
      rw [read]
      exact filterMap_keyFile?_ne_nil.mpr named
    rw [key, keyNode?_of_keyFiles some, read]
  · have none : cache.keyFiles = [] := by
      rw [read]
      exact not_not.mp (mt filterMap_keyFile?_ne_nil.mp unnamed)
    rw [key, keyNode?_of_no_keyFiles none, read]
  all_goals simp

/-- Fixed keys before and behind the files, two labels, and an option that is changed. -/
def contested : List Setting :=
  [.keyLabel "old", .key "static", .keyFile "Cargo.lock", .path "target", .untracked true, .key "later",
    .keyFile "flake.lock", .keyLabel "rust", .untracked false, .path "target"]

theorem exports_contested :
    (configure {} contested).isEmpty = false ∧
    (toNode (configure {} contested)).get? "key" = some (.map
      [(.str "files", .list [.str "Cargo.lock", .str "flake.lock"]), (.str "prefix", .str "rust")]) ∧
    (toNode (configure {} contested)).get? "paths" = some (.list [.str "target", .str "target"]) ∧
    (toNode (configure {} contested)).get? "untracked" = some (.bool false) ∧
    (configure {} contested).toMapping.keys = [.str "key", .str "paths", .str "untracked"] ∧
    (configure {} [.keyLabel "rust"]).isEmpty = true ∧
    (toNode (configure {} [.keyLabel "rust", .key "a", .key "b"])).get? "key" = some (.str "b") := by
  obtain ⟨empty, -, named, -, paths, untracked, -, -, keys⟩ := exports_by_precedence contested
  obtain ⟨labelled, -⟩ := exports_by_precedence [.keyLabel "rust"]
  obtain ⟨-, -, -, unnamed, -⟩ := exports_by_precedence [.keyLabel "rust", .key "a", .key "b"]
  refine ⟨Bool.eq_false_iff.mpr fun none => ?_, (named ⟨"Cargo.lock", by decide⟩).trans rfl, paths.trans rfl,
    untracked.trans rfl, keys.trans rfl, labelled.mpr ?_, (unnamed ?_).trans rfl⟩
  · obtain ⟨label, impossible⟩ := empty.mp none (.path "target") (by decide)
    cases impossible
  · simp
  · simp

end Cache
end CiPipeline
