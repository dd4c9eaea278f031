import CiPipeline.Proofs.Job.Fields
import CiPipeline.Proofs.Job.WellFormed

/-!
# The schema of an exported job

`FieldConforms` has one rule for each key: what may stand under it. A node `Conforms` when it is a
map of such fields, none of them twice, and the node of every well-formed job does
(`conforms_toNode`).
-/

namespace CiPipeline
open Mapping

/-! ### The shapes -/

/-- A scalar, or a list of several scalars that are all different. -/
inductive ScalarOrSeveral : Node → Prop where
  | scalar {n : Node} (kind : n.isScalar = true) : ScalarOrSeveral n
  | several {items : List Node} (atLeastTwo : 2 ≤ items.length) (distinct : items.Nodup)
      (scalars : ∀ item ∈ items, item.isScalar = true) : ScalarOrSeveral (.list items)

/-- A count, or a count with the failures after which it holds. -/
inductive RetryShape : Node → Prop where
  | count {max : Nat} (bound : max ≤ 2) : RetryShape (.int (Int64.ofNat max))
  | policy {max : Nat} {conditions : List (String × Node)} (bound : max ≤ 2) (nonempty : conditions ≠ [])
      (named : List.Sublist (conditions.map (·.1)) ["when", "exit_codes"])
      (each : ∀ condition ∈ conditions, ScalarOrSeveral condition.2) :
      RetryShape (.map (pairs (("max", .int (Int64.ofNat max)) :: conditions)))

inductive AllowFailureShape : Node → Prop where
  | flag (allowed : Bool) : AllowFailureShape (.bool allowed)
  | exitCodes {codes : List Int64} (nonempty : codes ≠ []) (distinct : codes.Nodup) :
      AllowFailureShape (.map (pairs [("exit_codes", .list (codes.map .int))]))

inductive DependencyShape : Node → Prop where
  | dependency (job : String) (artifacts optional : Bool) : DependencyShape
      (.map (pairs [("job", .str job), ("artifacts", .bool artifacts), ("optional", .bool optional)]))

/-- What may stand under a key of a job, `stages` being those of its pipeline. -/
inductive FieldConforms (stages : List String) : String → Node → Prop where
  | stage {stage : String} (known : stage ∈ stages) : FieldConforms stages "stage" (.str stage)
  | record {key : String} (listed : key ∈ ["image", "cache", "artifacts"]) {entries : List (Node × Node)}
      (nonempty : entries ≠ []) : FieldConforms stages key (.map entries)
  | services {items : List Node} (nonempty : items ≠ []) (distinct : items.Nodup) :
      FieldConforms stages "services" (.list items)
  | phase {key : String} (listed : key ∈ ["before_script", "script", "after_script"])
      {items : List Node} (nonempty : items ≠ []) : FieldConforms stages key (.list items)
  | tags {tags : List String} (nonempty : tags ≠ []) (distinct : tags.Nodup) :
      FieldConforms stages "tags" (.list (tags.map .str))
  | needs {items : List Node} (nonempty : items ≠ []) (each : ∀ item ∈ items, DependencyShape item) :
      FieldConforms stages "needs" (.list items)
  | vars {named : List (String × String)} (nonempty : named ≠ []) (distinct : (named.map (·.1)).Nodup) :
      FieldConforms stages "variables" (.map (pairs (named.map fun pair => (pair.1, .str pair.2))))
  | retry {n : Node} (shape : RetryShape n) : FieldConforms stages "retry" n
  | allowFailure {n : Node} (shape : AllowFailureShape n) : FieldConforms stages "allow_failure" n
  | coverage (regex : String) : FieldConforms stages "coverage" (.str ("/" ++ regex ++ "/"))

/-- Neither null nor an empty collection. -/
def Filled (n : Node) : Prop := n ≠ .null ∧ n ≠ .list [] ∧ n ≠ .map []

/-- A map of the fields of a job, each at most once and none of them empty. -/
def Conforms (stages : List String) (n : Node) : Prop :=
  ∃ fields : List (String × Node), n = .map (pairs fields) ∧ (fields.map (·.1)).Nodup ∧
    ∀ field ∈ fields, FieldConforms stages field.1 field.2 ∧ Filled field.2

theorem filled_list {items : List Node} (nonempty : items ≠ []) : Filled (.list items) :=
  ⟨by simp, by simpa using nonempty, by simp⟩

theorem filled_map {entries : List (Node × Node)} (nonempty : entries ≠ []) : Filled (.map entries) :=
  ⟨by simp, by simp, by simpa using nonempty⟩

theorem filled_of_isScalar {n : Node} (scalar : n.isScalar = true) (notNull : n ≠ .null) : Filled n := by
  refine ⟨notNull, ?_, ?_⟩
  · rintro rfl
    cases scalar
  · rintro rfl
    cases scalar

theorem FieldConforms.filled {stages : List String} {key : String} {value : Node}
    (conforms : FieldConforms stages key value) : Filled value := by
  cases conforms with
  | stage | coverage => exact filled_of_isScalar rfl (by simp)
  | record _ nonempty => exact filled_map nonempty
  | services nonempty | phase _ nonempty | needs nonempty => exact filled_list nonempty
  | tags nonempty => exact filled_list (by simpa using nonempty)
  | vars nonempty => exact filled_map (by simpa [pairs] using nonempty)
  | retry shape =>
    cases shape with
    | count => exact filled_of_isScalar rfl (by simp)
    | policy => exact filled_map (by simp [pairs])
  | allowFailure shape =>
    cases shape with
    | flag => exact filled_of_isScalar rfl (by simp)
    | exitCodes => exact filled_map (by simp [pairs])

/-! ### Values of fields -/

theorem upsert_ne_nil (found : Node → Bool) (key value : Node) (entries : List (Node × Node)) :
    upsert found key value entries ≠ [] := by
  cases entries with
  | nil => simp [upsert]
  | cons entry entries =>
    rw [upsert]
    split <;> simp

theorem entries_add_ne_nil {α} [ToNode α] (m : Mapping) (key : String) (value : α) :
    (m.add key value).entries ≠ [] := upsert_ne_nil _ _ _ _

theorem entries_image_ne_nil (image : Image) : image.toMapping.entries ≠ [] := by
  unfold Image.toMapping addOpt
  split <;> exact entries_add_ne_nil _ _ _

theorem nodup_map_toNode {α} [ToNode α] (injective : ∀ {a b : α}, toNode a = toNode b → a = b)
    {items : List α} (distinct : items.Nodup) : (items.map toNode).Nodup :=
  List.Pairwise.map _ (fun _ _ differs same => differs (injective same)) distinct

theorem toNode_cause_injective {a b : RetryCause} (same : toNode a = toNode b) : a = b := by
  have text : a.text = b.text := Node.str.inj same
  clear same
  revert text
  cases a <;> cases b <;> decide

theorem toInt64_injective {a b : Int32} (same : a.toInt64 = b.toInt64) : a = b := by
  have wide := congrArg Int64.toInt same
  rw [Int32.toInt_toInt64, Int32.toInt_toInt64] at wide
  exact Int32.toInt_inj.mp wide

theorem toNode_code_injective {a b : Int32} (same : toNode a = toNode b) : a = b :=
  toInt64_injective (Node.int.inj same)

/-! ### The shapes of the parts -/

theorem scalarOrSeveral_of_set {α} [ToNode α] (injective : ∀ {a b : α}, toNode a = toNode b → a = b)
    (scalars : ∀ a : α, (toNode a).isScalar = true) {s : OrderedSet α} {n : Node}
    (shown : s.scalarOrList = some n) : ScalarOrSeveral n := by
  have distinct := s.nodup
  unfold OrderedSet.scalarOrList at shown
  generalize s.toList = members at shown distinct
  match members, shown, distinct with
  | [a], shown, _ =>
    cases shown
    exact .scalar (scalars a)
  | a :: b :: rest, shown, distinct =>
    cases shown
    refine .several (by simp) (nodup_map_toNode injective distinct) fun item member => ?_
    obtain ⟨a, -, rfl⟩ := List.mem_map.mp member
    exact scalars a

theorem retryShape (retry : Retry) : RetryShape (toNode retry) := by
  have bound : retry.max.val ≤ 2 := Nat.le_of_lt_succ retry.max.isLt
  rcases retry.toNode_cases with ⟨-, bare⟩ | ⟨nonempty, shown⟩
  · rw [bare]
    exact .count bound
  · rw [shown, Retry.fields, present_cons_some]
    refine .policy bound nonempty (names_present_sublist retry.conditions) ?_
    rintro ⟨name, value⟩ member
    rw [mem_present, Retry.conditions, List.mem_cons, List.mem_singleton] at member
    rcases member with member | member
    · exact scalarOrSeveral_of_set toNode_cause_injective (fun _ => rfl) (Prod.mk.inj member).2.symm
    · exact scalarOrSeveral_of_set toNode_code_injective (fun _ => rfl) (Prod.mk.inj member).2.symm

theorem allowFailureShape {allowed : AllowFailure}
    (codes : ∀ codes, allowed = .exitCodes codes → codes.toList ≠ []) :
    AllowFailureShape (toNode allowed) := by
  cases allowed with
  | flag allowed => exact .flag allowed
  | exitCodes set =>
    have nonempty : set.toList.map Int32.toInt64 ≠ [] := by simpa using codes set rfl
    have distinct : (set.toList.map Int32.toInt64).Nodup :=
      List.Pairwise.map _ (fun _ _ differs same => differs (toInt64_injective same)) set.nodup
    have shape := AllowFailureShape.exitCodes nonempty distinct
    rw [List.map_map] at shape
    exact shape

theorem dependencyShape (d : Dependency) : DependencyShape (toNode d) := .dependency ..

/-! ### A job -/

theorem fieldConforms {job : Job} (wellFormed : job.WellFormed) {stages : List String}
    (staged : ∀ stage ∈ job.stage, stage ∈ stages) {name : String} {value : Node}
    (member : (name, some value) ∈ job.fields) : FieldConforms stages name value := by
  cases Job.hasField_of_mem member with
  | stage set => exact .stage (staged _ set)
  | image => exact .record (by simp) (entries_image_ne_nil _)
  | services nonempty =>
    exact .services (by simpa using nonempty) (nodup_map_toNode toNode_service_injective job.services.nodup)
  | commands phase nonempty => exact .phase (by cases phase <;> simp [Job.phaseKey]) (by simpa using nonempty)
  | tags nonempty => exact .tags nonempty job.tags.nodup
  | needs nonempty =>
    refine .needs (by simpa using nonempty) fun item member => ?_
    obtain ⟨dependency, -, rfl⟩ := List.mem_map.mp member
    exact dependencyShape dependency
  | vars nonempty =>
    rw [job.toNode_variables]
    exact .vars nonempty job.vars.nodup
  | cache nonempty => exact .record (by simp) nonempty
  | artifacts => exact .record (by simp) (entries_add_ne_nil _ _ _)
  | retry => exact .retry (retryShape _)
  | allowFailure set =>
    exact .allowFailure (allowFailureShape fun codes same => wellFormed.codes codes (same ▸ set))
  | coverage => exact .coverage _

theorem conforms_toNode {job : Job} (wellFormed : job.WellFormed) {stages : List String}
    (staged : ∀ stage ∈ job.stage, stage ∈ stages) : Conforms stages (toNode job) := by
  refine ⟨present job.fields, job.toNode_eq_map, distinct_present job.distinct_fields, ?_⟩
  rintro ⟨name, value⟩ member
  have conforms := fieldConforms wellFormed staged (mem_present.mp member)
  exact ⟨conforms, conforms.filled⟩

end CiPipeline
