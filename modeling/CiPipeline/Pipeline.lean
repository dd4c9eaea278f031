import CiPipeline.Job.Block

/-!
# Pipelines

A pipeline is a set of stages and a list of jobs. `declare` adds to it: a job of a known name takes
the place of the earlier one, and a refused declaration changes nothing. `build` makes a pipeline of
a list of declarations, `toMapping` and `render` export it.
-/

namespace CiPipeline

structure Pipeline where
  stages : OrderedSet String := .empty
  jobs : List Job := []
  deriving BEq

namespace Pipeline

inductive Declaration where
  | stage (name : String)
  /-- The stage of a job is registered with it. -/
  | job (name : String) (stage : Option String) (block : List Job.Action)
  deriving DecidableEq, Repr

/-- What came of a declaration. -/
structure Outcome where
  pipeline : Pipeline
  events : List Event := []
  trace : List Job.TraceEntry := []
  error : Option PipelineError := none

def jobNamed? (p : Pipeline) (name : String) : Option Job := p.jobs.find? (·.name == name)

def addStage (p : Pipeline) (stage : String) (event : Event) : Pipeline × List Event :=
  if p.stages.contains stage then (p, [])
  else ({ p with stages := p.stages.insert stage }, [event])

/-- Puts a job in the place of the first job of its name, or at the end. -/
def placeJob (job : Job) : List Job → List Job
  | [] => [job]
  | j :: jobs => if j.name == job.name then job :: jobs else j :: placeJob job jobs

def addJob (p : Pipeline) (job : Job) : Pipeline × List Event :=
  let event := if (p.jobNamed? job.name).isSome then .jobReplaced job.name else .jobRegistered job.name
  ({ p with jobs := placeJob job p.jobs }, [event])

/-- The stage is registered before the job, and both only after the block has run. -/
def register (p : Pipeline) (job : Job) : Pipeline × List Event :=
  let (p, stageEvents) :=
    match job.stage with
    | some stage => p.addStage stage (.stageRegisteredFromJob stage)
    | none => (p, [])
  let (p, jobEvents) := p.addJob job
  (p, stageEvents ++ jobEvents)

def declare (p : Pipeline) : Declaration → Outcome
  | .stage name =>
    let (pipeline, events) := p.addStage name (.stageRegistered name)
    { pipeline, events }
  | .job name stage block =>
    if Text.allBlank name.toList then { pipeline := p, error := some (.validation .emptyName) }
    else
      let run := (Job.fresh name stage).run block
      match run.error with
      | some e => { pipeline := p, events := run.events, trace := run.trace, error := some e }
      | none =>
        let (pipeline, events) := p.register run.job
        { pipeline, events := run.events ++ events, trace := run.trace }

/-- Declares one after another, and ends at the first refusal. -/
def declareAll (p : Pipeline) : List Declaration → Except PipelineError Pipeline
  | [] => .ok p
  | d :: ds =>
    let outcome := p.declare d
    match outcome.error with
    | some e => .error e
    | none => declareAll outcome.pipeline ds

def build (ds : List Declaration) : Except PipelineError Pipeline := declareAll {} ds

def toMapping (p : Pipeline) : Mapping :=
  p.jobs.foldl (fun m job => m.add job.name job)
    (Mapping.empty.addNonEmpty "stages" p.stages.toList)

end Pipeline

instance : ToNode Pipeline := ⟨fun p => toNode p.toMapping⟩

namespace Pipeline

def render (p : Pipeline) : String := (toNode p).document

/-- Reported whenever a pipeline is rendered. -/
def renderEvent (p : Pipeline) : Event := .rendering p.stages.size p.jobs.length

theorem placeJob_names (job : Job) (jobs : List Job) :
    (placeJob job jobs).map (·.name) =
      if job.name ∈ jobs.map (·.name) then jobs.map (·.name)
      else jobs.map (·.name) ++ [job.name] := by
  induction jobs with
  | nil => simp [placeJob]
  | cons j jobs ih =>
    rw [placeJob]
    by_cases h : j.name = job.name
    · simp [h]
    · simp only [beq_iff_eq, if_neg h, List.map_cons, ih, List.mem_cons, Ne.symm h, false_or]
      split <;> rfl

theorem declare_refused {p : Pipeline} {d : Declaration} (h : (p.declare d).error ≠ none) :
    (p.declare d).pipeline = p := by
  unfold declare at *
  cases d with
  | stage name => simp at h
  | job name stage block =>
    dsimp only at *
    split
    · rfl
    · rename_i visible
      rw [if_neg visible] at h
      split
      · rfl
      next none => simp [none] at h

end Pipeline
end CiPipeline
