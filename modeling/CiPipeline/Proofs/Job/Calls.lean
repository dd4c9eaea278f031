import CiPipeline.Proofs.Collection.LastOccurrence
import CiPipeline.Proofs.Job.Warnings

/-!
# The slots of a job from its calls

Each slot hears the actions of one group, and a reading (`Action.tag?`, `Action.texts`, …) says what an
action tells it. What a block leaves in the slot of a fresh job is a function of what its actions tell,
in order: all of it, its distinct items, the last value of each name, or the last item alone.
-/

namespace CiPipeline

/-! ### What actions tell -/

def Script.Action.texts : Script.Action → List String
  | .shell text => [text]
  | .shells texts => texts
  | .command (.shell text) => [text]
  | .length | .isEmpty => []

theorem Script.Action.commands_eq_map (action : Script.Action) : action.commands = action.texts.map .shell := by
  cases action with
  | command c => cases c; rfl
  | _ => rfl

/-- What a call says about the failure of a job. -/
inductive Allowance where
  | flag (allowed : Bool)
  | exitCode (code : Int32)

def AllowFailure.heed (current : Option AllowFailure) : Allowance → AllowFailure
  | .flag allowed => .flag allowed
  | .exitCode code => (current.getD (.flag false)).addExitCode code

namespace Job

namespace Action

def service? : Action → Option Service
  | .service started => some started
  | _ => none

def texts (phase : Phase) : Action → List String
  | .script own actions => if own = phase then actions.flatMap Script.Action.texts else []
  | _ => []

def tag? : Action → Option String
  | .tag text => some text
  | _ => none

/-- What an action of a job of this name waits for. -/
def dependency? (name : String) : Action → Option Dependency
  | .needs job files optional => some { job, artifacts := files, optional }
  | .needsSelf => some { job := name }
  | _ => none

def definition? : Action → Option (String × String)
  | .setVariable name value => some (name, value)
  | _ => none

def cacheSettings : Action → List Cache.Setting
  | .cache settings => settings
  | _ => []

def artifactsSettings : Action → List Artifacts.Setting
  | .artifacts settings => settings
  | _ => []

/-- The retry that an action sets, unless it is refused. -/
def retry? : Action → Option Retry
  | .retry max triggers | .tryRetry max triggers => (Retry.ofMax max).toOption.map (·.configure triggers)
  | _ => none

def allowance? : Action → Option Allowance
  | .allowFailure => some (.flag true)
  | .forbidFailure => some (.flag false)
  | .allowFailureOnExitCode code => some (.exitCode code)
  | _ => none

def regex? : Action → Option String
  | .coverage regex => some regex
  | _ => none

end Action

/-! ### Slots as folds over what is told -/

theorem slot_run_flatMap (job : Job) (g : Group) {β : Type} (read : Action → List β)
    (update : g.Slot → β → g.Slot)
    (each : ∀ value action, onSlot job.name g value action = (read action).foldl update value)
    (block : List Action) :
    (job.run block).job.slot g = ((performed block).flatMap read).foldl update (job.slot g) := by
  have actions : onSlot job.name g = fun value action => (read action).foldl update value :=
    funext fun value => funext fun action => each value action
  rw [slot_run, List.foldl_flatMap, actions]

theorem slot_run_filterMap (job : Job) (g : Group) {β : Type} (read : Action → Option β)
    (update : g.Slot → β → g.Slot)
    (each : ∀ value action, onSlot job.name g value action = (read action).elim value (update value))
    (block : List Action) :
    (job.run block).job.slot g = ((performed block).filterMap read).foldl update (job.slot g) := by
  rw [List.filterMap_eq_flatMap_toList]
  refine slot_run_flatMap job g _ update (fun value action => ?_) block
  rw [each]
  cases read action <;> rfl

/-- Where each item replaces what stands there, the last one is left. -/
theorem foldl_replace {α : Type} (items : List α) (start : Option α) :
    items.foldl (fun _ a => some a) start = items.getLast?.or start := by
  induction items using List.reverseRecOn with
  | nil => rfl
  | append_singleton items a => simp

theorem foldl_push {α β : Type} (f : α → β) (items : List α) (start : List β) :
    items.foldl (fun all a => all ++ [f a]) start = start ++ items.map f := by
  rw [List.foldl_append_eq_append, ← List.flatMap_def, ← List.map_eq_flatMap]

theorem isSome_foldl {α β : Type} (update : Option α → β → α) (items : List β) :
    (items.foldl (fun value b => some (update value b)) none).isSome = true ↔ items ≠ [] := by
  induction items using List.reverseRecOn with
  | nil => simp
  | append_singleton items b => simp

/-! ### A fresh job after a block -/

variable (name : String) (stage : Option String) (block : List Action)

theorem image_run : ((fresh name stage).run block).job.image =
    ((performed block).filterMap Action.image?).getLast? := by
  have replay := slot_run_filterMap (fresh name stage) .image Action.image? (fun _ image => some image)
    (fun value action => by cases action <;> rfl) block
  exact replay.trans ((foldl_replace _ _).trans Option.or_none)

theorem services_run : ((fresh name stage).run block).job.services.toList =
    ((performed block).filterMap Action.service?).eraseDups := by
  have replay := slot_run_filterMap (fresh name stage) .services Action.service? OrderedSet.insert
    (fun value action => by cases action <;> rfl) block
  exact (congrArg OrderedSet.toList replay).trans (OrderedSet.toList_ofList _)

theorem run_commands_fst (commands : List Command) (actions : List Script.Action) :
    (Script.run commands actions).1 = commands ++ (actions.flatMap Script.Action.texts).map .shell := by
  have shells : Script.Action.commands = fun action => action.texts.map .shell :=
    funext Script.Action.commands_eq_map
  rw [Script.run_fst, List.map_flatMap, shells]

theorem commands_run (phase : Phase) : ((fresh name stage).run block).job.commands phase =
    ((performed block).flatMap (Action.texts phase)).map .shell := by
  have replay := slot_run_flatMap (fresh name stage) (.script phase) (Action.texts phase)
    (fun (commands : List Command) text => commands ++ [.shell text]) (fun commands action => ?_) block
  · have start : (fresh name stage).commands phase = [] := by cases phase <;> rfl
    refine replay.trans ((foldl_push _ _ _).trans ?_)
    rw [slot, start, List.nil_append]
  · cases action with
    | script own actions =>
      by_cases same : own = phase
      · subst same
        rw [Action.texts, if_pos rfl]
        have pushed := (run_commands_fst commands actions).trans (foldl_push _ _ _).symm
        cases own <;> exact pushed
      · have other : (Action.script own actions).group? ≠ some (.script phase) := by
          simpa [Action.group?] using same
        rw [onSlot_other other, Action.texts, if_neg same]
        rfl
    | _ => rfl

theorem tags_run : ((fresh name stage).run block).job.tags.toList =
    ((performed block).filterMap Action.tag?).eraseDups := by
  have replay := slot_run_filterMap (fresh name stage) .tags Action.tag? OrderedSet.insert
    (fun value action => by cases action <;> rfl) block
  exact (congrArg OrderedSet.toList replay).trans (OrderedSet.toList_ofList _)

theorem needs_run : ((fresh name stage).run block).job.needs =
    (performed block).filterMap (Action.dependency? name) := by
  have replay := slot_run_filterMap (fresh name stage) .needs (Action.dependency? name)
    (fun (needs : List Dependency) dependency => needs ++ [dependency])
    (fun value action => by cases action <;> rfl) block
  exact replay.trans ((foldl_push id _ _).trans (List.map_id _))

theorem vars_run : ((fresh name stage).run block).job.vars =
    OrderedMap.ofList ((performed block).filterMap Action.definition?) :=
  slot_run_filterMap (fresh name stage) .vars Action.definition? (fun vars pair => vars.insert pair.1 pair.2)
    (fun value action => by cases action <;> rfl) block

theorem cache_run : ((fresh name stage).run block).job.cache =
    Cache.configure {} ((performed block).flatMap Action.cacheSettings) :=
  slot_run_flatMap (fresh name stage) .cache Action.cacheSettings Cache.apply
    (fun value action => by cases action <;> rfl) block

theorem artifacts_run : ((fresh name stage).run block).job.artifacts =
    Artifacts.configure {} ((performed block).flatMap Action.artifactsSettings) :=
  slot_run_flatMap (fresh name stage) .artifacts Action.artifactsSettings Artifacts.apply
    (fun value action => by cases action <;> rfl) block

theorem retry_run : ((fresh name stage).run block).job.retry =
    ((performed block).filterMap Action.retry?).getLast? := by
  have replay := slot_run_filterMap (fresh name stage) .retry Action.retry? (fun _ retry => some retry)
    (fun value action => ?_) block
  · exact replay.trans ((foldl_replace _ _).trans Option.or_none)
  · cases action with
    | retry max triggers | tryRetry max triggers =>
      show (retryChange max triggers).update value = _
      simp only [retryChange, Action.retry?]
      cases Retry.ofMax max <;> rfl
    | _ => rfl

theorem allowFailure_run : ((fresh name stage).run block).job.allowFailure =
    ((performed block).filterMap Action.allowance?).foldl
      (fun current said => some (AllowFailure.heed current said)) none :=
  slot_run_filterMap (fresh name stage) .allowFailure Action.allowance?
    (fun current said => some (AllowFailure.heed current said)) (fun value action => by cases action <;> rfl) block

theorem coverage_run : ((fresh name stage).run block).job.coverage =
    ((performed block).filterMap Action.regex?).getLast? := by
  have replay := slot_run_filterMap (fresh name stage) .coverage Action.regex? (fun _ regex => some regex)
    (fun value action => by cases action <;> rfl) block
  exact replay.trans ((foldl_replace _ _).trans Option.or_none)

end Job
end CiPipeline
