import CiPipeline.Collection.OrderedMap
import CiPipeline.Job.AllowFailure
import CiPipeline.Job.Artifacts
import CiPipeline.Job.Cache
import CiPipeline.Job.Image
import CiPipeline.Job.Retry
import CiPipeline.Job.Script

/-!
# Jobs

A job has a name, perhaps a stage, and what its block declared. `toMapping` fixes the order of the
exported keys. Equality (`==`) ignores the order of services, tags and variables.
-/

namespace CiPipeline

structure Dependency where
  job : String
  artifacts : Bool := false
  optional : Bool := false
  deriving DecidableEq, Repr

/-- A job is needed by name, and no job has a blank one. -/
def Dependency.on (job : String) (artifacts optional : Bool) : Except PipelineError Dependency :=
  if Text.allBlank job.toList then .error (.validation .emptyName)
  else .ok { job, artifacts, optional }

instance : ToNode Dependency := ⟨fun d =>
  toNode (((Mapping.empty.add "job" d.job).add "artifacts" d.artifacts).add "optional" d.optional)⟩

/-- The parts of a job's script, in the order in which they run. -/
inductive Phase where
  | before
  | main
  | after
  deriving DecidableEq, Repr

structure Job where
  name : String
  stage : Option String
  image : Option Image := none
  services : OrderedSet Service := .empty
  beforeScript : List Command := []
  script : List Command := []
  afterScript : List Command := []
  tags : OrderedSet String := .empty
  needs : List Dependency := []
  vars : OrderedMap String String := .empty
  cache : Cache := {}
  artifacts : Artifacts := {}
  retry : Option Retry := none
  allowFailure : Option AllowFailure := none
  coverage : Option String := none
  deriving BEq

namespace Job

/-- A job before its block has run. -/
def fresh (name : String) (stage : Option String) : Job := { name, stage }

def commands (job : Job) : Phase → List Command
  | .before => job.beforeScript
  | .main => job.script
  | .after => job.afterScript

def setCommands (job : Job) (phase : Phase) (commands : List Command) : Job :=
  match phase with
  | .before => { job with beforeScript := commands }
  | .main => { job with script := commands }
  | .after => { job with afterScript := commands }

/-- The regular expression stands between slashes. -/
def coverageText? (job : Job) : Option String :=
  job.coverage.map fun regex => "/" ++ regex ++ "/"

def toMapping (job : Job) : Mapping :=
  Mapping.empty
    |>.addOpt "stage" job.stage
    |>.addOpt "image" job.image
    |>.addNonEmpty "services" job.services.toList
    |>.addNonEmpty "before_script" job.beforeScript
    |>.addNonEmpty "script" job.script
    |>.addNonEmpty "after_script" job.afterScript
    |>.addNonEmpty "tags" job.tags.toList
    |>.addNonEmpty "needs" job.needs
    |>.addMapNonEmpty "variables" (.ofPairs job.vars.entries)
    |>.addMapNonEmpty "cache" job.cache.toMapping
    |>.addOpt "artifacts" (if job.artifacts.isEmpty then none else some job.artifacts)
    |>.addOpt "retry" job.retry
    |>.addOpt "allow_failure" job.allowFailure
    |>.addOpt "coverage" job.coverageText?

end Job

instance : ToNode Job := ⟨fun job => toNode job.toMapping⟩

/-- What a job shows of itself. -/
structure JobSummary where
  name : String
  stage : Option String
  image : Option String
  /-- The main script, in its displayed form. -/
  commands : List String
  document : String
  deriving DecidableEq, Repr

def Job.summary (job : Job) : JobSummary where
  name := job.name
  stage := job.stage
  image := job.image.map (·.name)
  commands := job.script.map Command.display
  document := (toNode job).document

end CiPipeline
