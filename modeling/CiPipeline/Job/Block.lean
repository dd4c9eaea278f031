import CiPipeline.Event
import CiPipeline.Job.Basic

/-!
# Job blocks

A block is a list of actions on one job. `step` performs an action or refuses it and then leaves the
job as it was; `run` performs a block up to the first refused action.
-/

namespace CiPipeline.Job

inductive Action where
  | image (image : Image)
  | service (service : Service)
  | script (phase : Phase) (actions : List Script.Action)
  | tag (tag : String)
  | needs (job : String) (artifacts optional : Bool)
  | needsSelf
  | setVariable (name value : String)
  | cache (settings : List Cache.Setting)
  | artifacts (settings : List Artifacts.Setting)
  | retry (max : UInt32) (triggers : List Retry.Trigger)
  /-- Like `retry`, but the block goes on after a refusal. -/
  | tryRetry (max : UInt32) (triggers : List Retry.Trigger)
  | coverage (regex : String)
  | allowFailure
  | forbidFailure
  | allowFailureOnExitCode (code : Int32)
  | fail (error : PipelineError)
  | inspect
  deriving DecidableEq, Repr

inductive Answer where
  | none
  | script (answers : List Script.Answer)
  | refused (error : ValidationError)
  | summary (summary : JobSummary)
  deriving DecidableEq, Repr

/-- What an action did to the job. -/
structure Effect where
  job : Job
  events : List Event := []
  answer : Answer := .none

/-- A different image replaces the earlier one with a warning. -/
def imageEvents (job : Job) (image : Image) : List Event :=
  match job.image with
  | some previous =>
    if previous = image then [] else [.imageReplaced job.name previous.name image.name]
  | none => []

def addDependency (job : Job) (dependency : Dependency) : Job :=
  { job with needs := job.needs ++ [dependency] }

def setRetry (job : Job) (max : UInt32) (triggers : List Retry.Trigger) :
    Except ValidationError Job := do
  let retry ← Retry.ofMax max
  return { job with retry := some (retry.configure triggers) }

def step (job : Job) : Action → Except PipelineError Effect
  | .image image =>
    .ok { job := { job with image := some image }, events := job.imageEvents image }
  | .service service => .ok { job := { job with services := job.services.insert service } }
  | .script phase actions =>
    let result := Script.run (job.commands phase) actions
    .ok { job := job.setCommands phase result.1, answer := .script result.2 }
  | .tag tag => .ok { job := { job with tags := job.tags.insert tag } }
  | .needs name artifacts optional =>
    match Dependency.on name artifacts optional with
    | .ok dependency => .ok { job := job.addDependency dependency }
    | .error e => .error e
  | .needsSelf => .ok { job := job.addDependency { job := job.name } }
  | .setVariable name value => .ok { job := { job with vars := job.vars.insert name value } }
  | .cache settings => .ok { job := { job with cache := job.cache.configure settings } }
  | .artifacts settings => .ok { job := { job with artifacts := job.artifacts.configure settings } }
  | .retry max triggers =>
    match job.setRetry max triggers with
    | .ok job => .ok { job }
    | .error e => .error (.validation e)
  | .tryRetry max triggers =>
    match job.setRetry max triggers with
    | .ok job => .ok { job }
    | .error e => .ok { job, answer := .refused e }
  | .coverage regex => .ok { job := { job with coverage := some regex } }
  | .allowFailure => .ok { job := { job with allowFailure := some (.flag true) } }
  | .forbidFailure => .ok { job := { job with allowFailure := some (.flag false) } }
  | .allowFailureOnExitCode code =>
    let allowed := (job.allowFailure.getD (.flag false)).addExitCode code
    .ok { job := { job with allowFailure := some allowed } }
  | .fail e => .error e
  | .inspect => .ok { job, answer := .summary job.summary }

/-- The outcome of an action, and the job after it. -/
structure TraceEntry where
  result : Except PipelineError Answer
  job : Job

structure Run where
  job : Job
  events : List Event := []
  trace : List TraceEntry := []
  /-- The refusal that ended the block. -/
  error : Option PipelineError := none

def run (job : Job) : List Action → Run
  | [] => { job }
  | action :: actions =>
    match job.step action with
    | .error e => { job, trace := [⟨.error e, job⟩], error := some e }
    | .ok effect =>
      let rest := run effect.job actions
      { rest with
        events := effect.events ++ rest.events
        trace := ⟨.ok effect.answer, effect.job⟩ :: rest.trace }

theorem run_cons_error {job : Job} {action : Action} {e : PipelineError}
    (h : job.step action = .error e) (actions : List Action) :
    run job (action :: actions) = { job, trace := [⟨.error e, job⟩], error := some e } := by
  rw [run, h]

theorem run_cons_ok {job : Job} {action : Action} {effect : Effect}
    (h : job.step action = .ok effect) (actions : List Action) :
    run job (action :: actions) =
      { run effect.job actions with
        events := effect.events ++ (run effect.job actions).events
        trace := ⟨.ok effect.answer, effect.job⟩ :: (run effect.job actions).trace } := by
  rw [run, h]

end CiPipeline.Job
