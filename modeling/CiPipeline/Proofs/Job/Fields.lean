import CiPipeline.Job.Basic
import CiPipeline.Proofs.Node.Fields

/-!
# The fields of a job

`fields` lists what a job may export, in the order of the keys. The exported entries are the fields
that have a value (`toNode_eq_map`), each under its own key, and `HasField` says for each key which
value it is.
-/

namespace CiPipeline
open Mapping

namespace Job

def fields (job : Job) : List (String × Option Node) :=
  [("stage", job.stage.map toNode), ("image", job.image.map toNode),
    ("services", listed job.services.toList), ("before_script", listed job.beforeScript),
    ("script", listed job.script), ("after_script", listed job.afterScript),
    ("tags", listed job.tags.toList), ("needs", listed job.needs),
    ("variables", nested (.ofPairs job.vars.entries)), ("cache", nested job.cache.toMapping),
    ("artifacts", (if job.artifacts.isEmpty then none else some job.artifacts).map toNode),
    ("retry", job.retry.map toNode), ("allow_failure", job.allowFailure.map toNode),
    ("coverage", job.coverageText?.map toNode)]

theorem toMapping_eq_ofFields (job : Job) : job.toMapping = ofFields job.fields := by
  simp only [ofFields, fields, List.foldl_cons, List.foldl_nil, addOpt_map, addOpt_listed,
    addOpt_nested]
  rfl

def fieldNames : List String :=
  ["stage", "image", "services", "before_script", "script", "after_script", "tags", "needs", "variables",
    "cache", "artifacts", "retry", "allow_failure", "coverage"]

theorem names_fields (job : Job) : job.fields.map (·.1) = fieldNames := rfl

theorem distinct_fields (job : Job) : (job.fields.map (·.1)).Nodup := by
  rw [names_fields]
  decide

theorem toNode_eq_map (job : Job) : toNode job = .map (pairs (present job.fields)) := by
  have entries := entries_ofFields (distinct_present job.distinct_fields)
  rw [← toMapping_eq_ofFields] at entries
  exact congrArg Node.map entries

theorem toNode_variables (job : Job) : toNode (ofPairs job.vars.entries) =
    .map (pairs (job.vars.entries.map fun pair => (pair.1, .str pair.2))) :=
  congrArg Node.map (entries_ofPairs job.vars.nodup)

theorem entries_variables_ne_nil {job : Job} :
    (ofPairs job.vars.entries).entries ≠ [] ↔ job.vars.entries ≠ [] := by
  rw [Node.map.inj job.toNode_variables]
  simp [pairs]

theorem variables_mem_present {job : Job} (nonempty : job.vars.entries ≠ []) :
    ("variables", toNode (ofPairs job.vars.entries)) ∈ present job.fields := by
  have filled : nested (ofPairs job.vars.entries) = some (toNode (ofPairs job.vars.entries)) :=
    nested_eq_some_iff.mpr ⟨entries_variables_ne_nil.mpr nonempty, rfl⟩
  rw [mem_present, fields, filled]
  simp

def phaseKey : Phase → String
  | .before => "before_script"
  | .main => "script"
  | .after => "after_script"

/-- The job has something to export under the key. -/
inductive HasField (job : Job) : String → Node → Prop where
  | stage {stage : String} (set : job.stage = some stage) : HasField job "stage" (toNode stage)
  | image {image : Image} (set : job.image = some image) : HasField job "image" (toNode image)
  | services (nonempty : job.services.toList ≠ []) : HasField job "services" (toNode job.services.toList)
  | commands (phase : Phase) (nonempty : job.commands phase ≠ []) :
      HasField job (phaseKey phase) (toNode (job.commands phase))
  | tags (nonempty : job.tags.toList ≠ []) : HasField job "tags" (toNode job.tags.toList)
  | needs (nonempty : job.needs ≠ []) : HasField job "needs" (toNode job.needs)
  | vars (nonempty : job.vars.entries ≠ []) :
      HasField job "variables" (toNode (ofPairs job.vars.entries))
  | cache (nonempty : job.cache.toMapping.entries ≠ []) : HasField job "cache" (toNode job.cache)
  | artifacts (nonempty : job.artifacts.isEmpty = false) : HasField job "artifacts" (toNode job.artifacts)
  | retry {retry : Retry} (set : job.retry = some retry) : HasField job "retry" (toNode retry)
  | allowFailure {allowed : AllowFailure} (set : job.allowFailure = some allowed) :
      HasField job "allow_failure" (toNode allowed)
  | coverage {regex : String} (set : job.coverage = some regex) :
      HasField job "coverage" (toNode ("/" ++ regex ++ "/"))

theorem hasField_of_mem {job : Job} {name : String} {value : Node}
    (member : (name, some value) ∈ job.fields) : job.HasField name value := by
  simp only [fields, List.mem_cons, Prod.mk.injEq, List.not_mem_nil, or_false] at member
  rcases member with ⟨rfl, h⟩ | ⟨rfl, h⟩ | ⟨rfl, h⟩ | ⟨rfl, h⟩ | ⟨rfl, h⟩ | ⟨rfl, h⟩ | ⟨rfl, h⟩ | ⟨rfl, h⟩ |
    ⟨rfl, h⟩ | ⟨rfl, h⟩ | ⟨rfl, h⟩ | ⟨rfl, h⟩ | ⟨rfl, h⟩ | ⟨rfl, h⟩
  · obtain ⟨_, set, rfl⟩ := Option.map_eq_some_iff.mp h.symm
    exact .stage set
  · obtain ⟨_, set, rfl⟩ := Option.map_eq_some_iff.mp h.symm
    exact .image set
  · obtain ⟨nonempty, rfl⟩ := listed_eq_some_iff.mp h.symm
    exact .services nonempty
  · obtain ⟨nonempty, rfl⟩ := listed_eq_some_iff.mp h.symm
    exact .commands .before nonempty
  · obtain ⟨nonempty, rfl⟩ := listed_eq_some_iff.mp h.symm
    exact .commands .main nonempty
  · obtain ⟨nonempty, rfl⟩ := listed_eq_some_iff.mp h.symm
    exact .commands .after nonempty
  · obtain ⟨nonempty, rfl⟩ := listed_eq_some_iff.mp h.symm
    exact .tags nonempty
  · obtain ⟨nonempty, rfl⟩ := listed_eq_some_iff.mp h.symm
    exact .needs nonempty
  · obtain ⟨nonempty, rfl⟩ := nested_eq_some_iff.mp h.symm
    exact .vars (entries_variables_ne_nil.mp nonempty)
  · obtain ⟨nonempty, rfl⟩ := nested_eq_some_iff.mp h.symm
    exact .cache nonempty
  · obtain ⟨_, set, rfl⟩ := Option.map_eq_some_iff.mp h.symm
    split at set
    · cases set
    next nonempty =>
      cases set
      exact .artifacts (Bool.eq_false_iff.mpr nonempty)
  · obtain ⟨_, set, rfl⟩ := Option.map_eq_some_iff.mp h.symm
    exact .retry set
  · obtain ⟨_, set, rfl⟩ := Option.map_eq_some_iff.mp h.symm
    exact .allowFailure set
  · obtain ⟨_, shown, rfl⟩ := Option.map_eq_some_iff.mp h.symm
    obtain ⟨_, set, rfl⟩ := Option.map_eq_some_iff.mp shown
    exact .coverage set

end Job

/-! ### Retries -/

theorem scalarOrList_eq_none_iff {α} [ToNode α] {s : OrderedSet α} :
    s.scalarOrList = none ↔ s.isEmpty = true := by
  unfold OrderedSet.scalarOrList OrderedSet.isEmpty
  split <;> simp_all

def Retry.conditions (retry : Retry) : List (String × Option Node) :=
  [("when", retry.causes.scalarOrList), ("exit_codes", retry.exitCodes.scalarOrList)]

def Retry.fields (retry : Retry) : List (String × Option Node) :=
  ("max", some retry.maxNode) :: retry.conditions

theorem Retry.distinct_fields (retry : Retry) : (retry.fields.map (·.1)).Nodup :=
  (by decide : ["max", "when", "exit_codes"].Nodup)

theorem Retry.present_conditions_eq_nil_iff (retry : Retry) :
    present retry.conditions = [] ↔ (retry.causes.isEmpty && retry.exitCodes.isEmpty) = true := by
  rw [Bool.and_eq_true, ← scalarOrList_eq_none_iff, ← scalarOrList_eq_none_iff, conditions]
  cases retry.causes.scalarOrList <;> cases retry.exitCodes.scalarOrList <;> simp [present]

/-- Without conditions the count stands alone. -/
theorem Retry.toNode_cases (retry : Retry) :
    present retry.conditions = [] ∧ toNode retry = retry.maxNode ∨
    present retry.conditions ≠ [] ∧ toNode retry = .map (pairs (present retry.fields)) := by
  by_cases bare : (retry.causes.isEmpty && retry.exitCodes.isEmpty) = true
  · exact .inl ⟨retry.present_conditions_eq_nil_iff.mpr bare, if_pos bare⟩
  · have shown : toNode retry = .map (ofFields retry.fields).entries := if_neg bare
    refine .inr ⟨(not_congr retry.present_conditions_eq_nil_iff).mpr bare, ?_⟩
    rw [shown, entries_ofFields (distinct_present retry.distinct_fields)]

/-! ### Services -/

def Service.fields (service : Service) : List (String × Option Node) :=
  [("name", some (toNode service.name)), ("entrypoint", service.image.entrypoint.map toNode),
    ("alias", service.hostName.map toNode), ("command", listed service.command)]

theorem Service.distinct_fields (service : Service) : (service.fields.map (·.1)).Nodup :=
  (by decide : ["name", "entrypoint", "alias", "command"].Nodup)

theorem Service.toNode_eq_map (service : Service) :
    toNode service = .map (pairs (present service.fields)) := by
  have written : service.toMapping = ofFields service.fields := by
    simp only [ofFields, fields, List.foldl_cons, List.foldl_nil, addOpt_map, addOpt_listed, addOpt_some]
    rfl
  exact congrArg Node.map (written ▸ entries_ofFields (distinct_present service.distinct_fields))

/-- Services that differ in anything are exported differently. -/
theorem toNode_service_injective {first second : Service} (same : toNode first = toNode second) :
    first = second := by
  rw [Service.toNode_eq_map, Service.toNode_eq_map] at same
  have fields : first.fields = second.fields :=
    present_injective rfl first.distinct_fields (pairs_injective (Node.map.inj same))
  simp only [Service.fields, List.cons.injEq, Prod.mk.injEq, true_and, and_true] at fields
  obtain ⟨name, entrypoint, hostName, command⟩ := fields
  obtain ⟨⟨_, _⟩, _, _⟩ := first
  obtain ⟨⟨_, _⟩, _, _⟩ := second
  obtain rfl := Node.str.inj (Option.some.inj name)
  obtain rfl := Option.map_injective (fun _ _ => toNode_list_injective Node.str.inj) entrypoint
  obtain rfl := Option.map_injective (fun _ _ => Node.str.inj) hostName
  obtain rfl := listed_injective Node.str.inj command
  rfl

end CiPipeline
