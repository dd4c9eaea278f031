import CiPipeline.Proofs.Job.Artifacts
import CiPipeline.Proofs.Job.Cache
import CiPipeline.Proofs.Job.Calls

/-!
# The keys of an exported job

Each slot has a key of its own, and what stands under it depends on the slot alone (`fields_eq`). So the
calls that a job was made with say what is exported under each key (`get?_run`) and whether the key is
there at all, for which one call of the group is mostly enough (`Declares`, `exported_keys`).
-/

namespace CiPipeline
open Mapping

namespace Job

namespace Group

/-- The groups in the order in which their slots are exported. -/
def all : List Group :=
  [.image, .services, .script .before, .script .main, .script .after, .tags, .needs, .vars, .cache,
    .artifacts, .retry, .allowFailure, .coverage]

theorem mem_all (g : Group) : g ∈ all := by
  cases g with
  | script phase => cases phase <;> decide
  | _ => decide

def key : Group → String
  | image => "image"
  | services => "services"
  | script phase => phaseKey phase
  | tags => "tags"
  | needs => "needs"
  | vars => "variables"
  | cache => "cache"
  | artifacts => "artifacts"
  | retry => "retry"
  | allowFailure => "allow_failure"
  | coverage => "coverage"

/-- What is exported of a slot. -/
def field : (g : Group) → g.Slot → Option Node
  | .image, (value : Option Image) => value.map toNode
  | .services, (value : OrderedSet Service) => listed value.toList
  | .script _, (value : List Command) => listed value
  | .tags, (value : OrderedSet String) => listed value.toList
  | .needs, (value : List Dependency) => listed value
  | .vars, (value : OrderedMap String String) => nested (.ofPairs value.entries)
  | .cache, (value : Cache) => nested value.toMapping
  | .artifacts, (value : Artifacts) => (if value.isEmpty then none else some value).map toNode
  | .retry, (value : Option Retry) => value.map toNode
  | .allowFailure, (value : Option AllowFailure) => value.map toNode
  | .coverage, (value : Option String) => value.map fun regex => .str ("/" ++ regex ++ "/")

end Group

theorem fields_eq (job : Job) : job.fields =
    ("stage", job.stage.map toNode) :: Group.all.map fun g => (g.key, g.field (job.slot g)) := by
  have coverage : job.coverageText?.map toNode = Group.field .coverage job.coverage := Option.map_map ..
  rw [fields, coverage]
  rfl

theorem stage_mem_fields (job : Job) : ("stage", job.stage.map toNode) ∈ job.fields :=
  job.fields_eq ▸ List.mem_cons_self

theorem slot_mem_fields (job : Job) (g : Group) : (g.key, g.field (job.slot g)) ∈ job.fields :=
  job.fields_eq ▸ List.mem_cons_of_mem _ (List.mem_map_of_mem g.mem_all)

theorem get?_slot (job : Job) (g : Group) : (toNode job).get? g.key = g.field (job.slot g) := by
  rw [toNode_eq_map]
  exact get?_present job.distinct_fields (job.slot_mem_fields g)

theorem keys_toMapping (job : Job) : job.toMapping.keys = ((present job.fields).map (·.1)).map .str := by
  rw [keys, toMapping_eq_ofFields, entries_ofFields (distinct_present job.distinct_fields), keys_pairs]

/-! ### The export of calls -/

/-- One variable for each name that was defined, with the value that was defined last. -/
def exportedVariables (defined : List (String × String)) : Option Node :=
  if defined.isEmpty then none
  else some (.map ((lastOfEach (·.1) defined).map fun pair => (.str pair.1, .str pair.2)))

theorem entries_variables (defined : List (String × String)) :
    (ofPairs (OrderedMap.ofList defined).entries).entries =
      (lastOfEach (·.1) defined).map fun pair => (.str pair.1, .str pair.2) := by
  rw [entries_ofPairs (OrderedMap.ofList defined).nodup, OrderedMap.entries_ofList, pairs, List.map_map]
  rfl

/-- The names of a map differ, and so the export writes none of them over another. -/
theorem nested_variables (defined : List (String × String)) :
    nested (ofPairs (OrderedMap.ofList defined).entries) = exportedVariables defined := by
  have empty : (ofPairs (OrderedMap.ofList defined).entries).entries = [] ↔ defined = [] := by
    rw [entries_variables, List.map_eq_nil_iff, lastOfEach_eq_nil_iff]
  rw [nested_eq_ite empty, entries_variables, exportedVariables]

theorem exportedVariables_isSome_iff {defined : List (String × String)} :
    (exportedVariables defined).isSome = true ↔ defined ≠ [] := by
  cases defined <;> simp [exportedVariables]

/-- What the calls of a job of this name put under the key of a group. -/
def Group.exported (name : String) (calls : List Action) : Group → Option Node
  | .image => (calls.filterMap Action.image?).getLast?.map toNode
  | .services => listed (calls.filterMap Action.service?).eraseDups
  | .script phase => listed (calls.flatMap (Action.texts phase))
  | .tags => listed (calls.filterMap Action.tag?).eraseDups
  | .needs => listed (calls.filterMap (Action.dependency? name))
  | .vars => exportedVariables (calls.filterMap Action.definition?)
  | .cache => nested (Cache.configure {} (calls.flatMap Action.cacheSettings)).toMapping
  | .artifacts =>
    let declared := Artifacts.configure {} (calls.flatMap Action.artifactsSettings)
    if declared.isEmpty then none else some (toNode declared)
  | .retry => (calls.filterMap Action.retry?).getLast?.map toNode
  | .allowFailure => ((calls.filterMap Action.allowance?).foldl
      (fun current said => some (AllowFailure.heed current said)) none).map toNode
  | .coverage => (calls.filterMap Action.regex?).getLast?.map fun regex => .str ("/" ++ regex ++ "/")

variable {name : String} {stage : Option String} {block : List Action}

theorem field_run (g : Group) : g.field (((fresh name stage).run block).job.slot g) =
    g.exported name (performed block) := by
  cases g with
  | image => rw [slot, image_run, Group.field, Group.exported]
  | services => exact congrArg listed (services_run name stage block)
  | script phase =>
    rw [slot, commands_run]
    exact listed_map (f := Command.shell) (fun _ => rfl) _
  | tags => exact congrArg listed (tags_run name stage block)
  | needs => rw [slot, needs_run, Group.field, Group.exported]
  | vars =>
    rw [slot, vars_run]
    exact nested_variables _
  | cache => rw [slot, cache_run, Group.field, Group.exported]
  | artifacts =>
    rw [slot, artifacts_run, Group.field, Group.exported]
    split <;> rfl
  | retry => rw [slot, retry_run, Group.field, Group.exported]
  | allowFailure => rw [slot, allowFailure_run, Group.field, Group.exported]
  | coverage => rw [slot, coverage_run, Group.field, Group.exported]

/-- Each key of a job holds what the calls before the first refusal put there. -/
theorem get?_run (g : Group) : (toNode ((fresh name stage).run block).job).get? g.key =
    g.exported name (performed block) :=
  (get?_slot _ g).trans (field_run g)

/-! ### Filled slots -/

/-- An action that is not refused, and whose refusal is not caught either. -/
def Action.Succeeds (action : Action) : Prop := action.refusal? = none ∧ action.caught = false

/-- The calls of a block give the slot something to export. -/
def Declares (block : List Action) : Group → Prop
  | .script phase => block.flatMap (Action.texts phase) ≠ []
  | .cache => ∃ setting ∈ block.flatMap Action.cacheSettings, ∀ label, setting ≠ .keyLabel label
  | .artifacts => (∃ setting ∈ block.flatMap Action.artifactsSettings, ∀ w, setting ≠ .when w) ∨
      ∃ w, Artifacts.lastWhen? (block.flatMap Action.artifactsSettings) = some w ∧ w ≠ .always
  | g => ∃ action ∈ block, action.group? = some g

theorem listed_isSome_iff {α} [ToNode α] {items : List α} : (listed items).isSome = true ↔ items ≠ [] :=
  Option.isSome_iff_ne_none.trans (not_congr listed_eq_none_iff)

theorem nested_isSome_iff {m : Mapping} : (nested m).isSome = true ↔ m.isEmpty = false := by
  cases empty : m.isEmpty <;> simp [nested, empty]

theorem filterMap_ne_nil_iff {g : Group} {β : Type} {read : Action → Option β} {block : List Action}
    (heard : ∀ action ∈ block, (read action).isSome = true ↔ action.group? = some g) :
    block.filterMap read ≠ [] ↔ ∃ action ∈ block, action.group? = some g := by
  rw [ne_eq, List.filterMap_eq_nil_iff]
  constructor
  · intro told
    obtain ⟨action, member, some⟩ : ∃ action ∈ block, read action ≠ none := by simpa using told
    exact ⟨action, member, (heard action member).mp (Option.isSome_iff_ne_none.mpr some)⟩
  · rintro ⟨action, member, own⟩ silent
    have told := (heard action member).mpr own
    rw [silent action member] at told
    cases told

theorem ofMax_isSome {max : UInt32} (allowed : max.toNat ≤ maxRetries) :
    (Retry.ofMax max).toOption.isSome = true := by
  rw [Retry.ofMax, dif_pos allowed]
  rfl

theorem retry?_isSome_iff {action : Action} (succeeds : action.Succeeds) :
    action.retry?.isSome = true ↔ action.group? = some .retry := by
  obtain ⟨accepted, notCaught⟩ := succeeds
  cases action with
  | retry max triggers =>
    have allowed : max.toNat ≤ maxRetries := by simpa [Action.refusal?] using accepted
    simp [Action.retry?, Action.group?, ofMax_isSome allowed]
  | tryRetry max triggers =>
    have allowed : max.toNat ≤ maxRetries := by simpa [Action.caught] using notCaught
    simp [Action.retry?, Action.group?, ofMax_isSome allowed]
  | _ => simp [Action.retry?, Action.group?]

theorem performed_of_succeeds (fine : ∀ action ∈ block, action.Succeeds) : performed block = block :=
  List.takeWhile_eq_self_iff.mpr fun action member => Option.isNone_iff_eq_none.mpr (fine action member).1

/-- Something stands under a key when the calls declare it. -/
theorem exported_isSome_iff (fine : ∀ action ∈ block, action.Succeeds) (g : Group) :
    (g.exported name block).isSome = true ↔ Declares block g := by
  cases g with
  | image =>
    rw [Group.exported, Option.isSome_map, List.getLast?_isSome]
    exact filterMap_ne_nil_iff fun action _ => by cases action <;> simp [Action.image?, Action.group?]
  | services =>
    rw [Group.exported, listed_isSome_iff, ne_eq, eraseDups_eq_nil_iff]
    exact filterMap_ne_nil_iff fun action _ => by cases action <;> simp [Action.service?, Action.group?]
  | script phase => exact listed_isSome_iff
  | tags =>
    rw [Group.exported, listed_isSome_iff, ne_eq, eraseDups_eq_nil_iff]
    exact filterMap_ne_nil_iff fun action _ => by cases action <;> simp [Action.tag?, Action.group?]
  | needs =>
    rw [Group.exported, listed_isSome_iff]
    exact filterMap_ne_nil_iff fun action _ => by cases action <;> simp [Action.dependency?, Action.group?]
  | vars =>
    rw [Group.exported, exportedVariables_isSome_iff]
    exact filterMap_ne_nil_iff fun action _ => by cases action <;> simp [Action.definition?, Action.group?]
  | cache =>
    have empty := not_congr (Cache.isEmpty_configure_iff (block.flatMap Action.cacheSettings))
    rw [Group.exported, nested_isSome_iff, ← Bool.not_eq_true]
    refine empty.trans ?_
    simp only [Declares, not_forall, not_exists, exists_prop]
  | artifacts =>
    have empty := not_congr (Artifacts.isEmpty_configure_iff (block.flatMap Action.artifactsSettings))
    rw [Group.exported, Option.isSome_ite']
    refine empty.trans ?_
    simp only [Declares, not_and_or, not_forall, not_exists, exists_prop, Option.mem_def]
  | retry =>
    rw [Group.exported, Option.isSome_map, List.getLast?_isSome]
    exact filterMap_ne_nil_iff fun action member => retry?_isSome_iff (fine action member)
  | allowFailure =>
    rw [Group.exported, Option.isSome_map, isSome_foldl]
    exact filterMap_ne_nil_iff fun action _ => by cases action <;> simp [Action.allowance?, Action.group?]
  | coverage =>
    rw [Group.exported, Option.isSome_map, List.getLast?_isSome]
    exact filterMap_ne_nil_iff fun action _ => by cases action <;> simp [Action.regex?, Action.group?]

/-- The keys of a job made by calls that succeed: in the order of the fields, each at most once, and
present when the job has a stage or when the calls declare something in the slot of the key. -/
theorem exported_keys (fine : ∀ action ∈ block, action.Succeeds) :
    ∃ keys : List String, ((fresh name stage).run block).job.toMapping.keys = keys.map .str ∧
      keys.Sublist fieldNames ∧ keys.Nodup ∧ ("stage" ∈ keys ↔ stage.isSome = true) ∧
      ∀ g : Group, g.key ∈ keys ↔ Declares block g := by
  generalize made : ((fresh name stage).run block).job = job
  have kept : job.stage = stage := by rw [← made, (run_keeps _ block).2, fresh]
  refine ⟨_, job.keys_toMapping, names_present_sublist _, distinct_present job.distinct_fields, ?_, fun g => ?_⟩
  · rw [name_mem_present_iff job.distinct_fields job.stage_mem_fields, Option.isSome_map, kept]
  · rw [name_mem_present_iff job.distinct_fields (job.slot_mem_fields g), ← made, field_run,
      performed_of_succeeds fine, exported_isSome_iff fine]

/-- Blocks without commands, a cache with a label alone, and a condition of the upload that is changed and
changed back. -/
def undeclaring : List Action :=
  [.script .main [.shells [], .length], .retry 2 [], .cache [.keyLabel "rust"], .artifacts [.when .onFailure],
    .tag "docker", .artifacts [.when .always]]

theorem exported_keys_undeclaring :
    (∀ action ∈ undeclaring, action.Succeeds) ∧
    ∃ keys : List String, ((fresh "test" (some "build")).run undeclaring).job.toMapping.keys = keys.map .str ∧
      "stage" ∈ keys ∧ "retry" ∈ keys ∧ "tags" ∈ keys ∧ "script" ∉ keys ∧ "cache" ∉ keys ∧ "artifacts" ∉ keys := by
  have fine : ∀ action ∈ undeclaring, action.Succeeds := by
    simp [undeclaring, Action.Succeeds, Action.refusal?, Action.caught, maxRetries]
  obtain ⟨keys, exported, -, -, stage, declared⟩ := @exported_keys "test" (some "build") _ fine
  refine ⟨fine, keys, exported, stage.mpr rfl, (declared .retry).mpr ?_, (declared .tags).mpr ?_,
    mt (declared (.script .main)).mp ?_, mt (declared .cache).mp ?_, mt (declared .artifacts).mp ?_⟩
  · exact ⟨.retry 2 [], by decide, rfl⟩
  · exact ⟨.tag "docker", by decide, rfl⟩
  · exact fun commands => commands rfl
  · rintro ⟨setting, member, other⟩
    exact other "rust" (List.mem_singleton.mp member)
  · simp [Declares, undeclaring, Action.artifactsSettings, Artifacts.lastWhen?, Artifacts.Setting.when?]

end Job
end CiPipeline
