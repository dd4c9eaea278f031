import CiPipeline.FileSystem
import CiPipeline.Pipeline

/-!
# Sessions

A session holds a pipeline and the files around it, and answers requests. A refused request leaves
the pipeline as it was; `runUntilError` ends at the first refusal and `runAll` goes on.
-/

namespace CiPipeline

inductive Request where
  | declare (declaration : Pipeline.Declaration)
  | stages
  | jobs
  | jobNamed (name : String)
  | render
  | node
  | write (path : String)
  | makeDirectory (path : String)
  deriving DecidableEq, Repr

inductive Response where
  | nothing
  | name (name : String)
  | reference (job : String)
  | names (names : List String)
  | summary (summary : Option JobSummary)
  | text (text : String)
  | node (node : Node)

structure Session where
  pipeline : Pipeline := {}
  files : FileSystem := {}

namespace Session

/-- What a request brought about. -/
structure Reply where
  session : Session
  result : Except PipelineError Response
  events : List Event := []
  trace : List Job.TraceEntry := []

def declared : Pipeline.Declaration → Response
  | .stage name => .name name
  | .job name _ _ => .reference name

/-- The pipeline is rendered before the file is touched. -/
def writeFile (s : Session) (path : String) : Reply :=
  let document := s.pipeline.render
  match s.files.writeText path document with
  | .error e =>
    { session := s, result := .error (.io e.message), events := [s.pipeline.renderEvent] }
  | .ok files =>
    { session := { s with files }
      result := .ok (.text document)
      events := [s.pipeline.renderEvent, .written path] }

/-- A directory that cannot be made is left out. -/
def withDirectory (s : Session) (path : String) : Session :=
  match s.files.makeDirectory path with
  | .ok files => { s with files }
  | .error _ => s

def step (s : Session) : Request → Reply
  | .declare d =>
    let outcome := s.pipeline.declare d
    { session := { s with pipeline := outcome.pipeline }
      result := match outcome.error with
        | some e => .error e
        | none => .ok (declared d)
      events := outcome.events
      trace := outcome.trace }
  | .stages => { session := s, result := .ok (.names s.pipeline.stages.toList) }
  | .jobs => { session := s, result := .ok (.names (s.pipeline.jobs.map (·.name))) }
  | .jobNamed name =>
    { session := s, result := .ok (.summary ((s.pipeline.jobNamed? name).map Job.summary)) }
  | .render =>
    { session := s, result := .ok (.text s.pipeline.render), events := [s.pipeline.renderEvent] }
  | .node => { session := s, result := .ok (.node (toNode s.pipeline)) }
  | .write path => s.writeFile path
  | .makeDirectory path => { session := s.withDirectory path, result := .ok .nothing }

/-- The replies to all requests. -/
def runAll (s : Session) : List Request → List Reply
  | [] => []
  | request :: requests =>
    let reply := s.step request
    reply :: runAll reply.session requests

/-- The session after the requests before the first refusal, how many these are, and the refusal. -/
def runUntilError (s : Session) : List Request → Session × Nat × Option PipelineError
  | [] => (s, 0, none)
  | request :: requests =>
    let reply := s.step request
    match reply.result with
    | .error e => (s, 0, some e)
    | .ok _ =>
      let (last, done, error) := runUntilError reply.session requests
      (last, done + 1, error)

end Session
end CiPipeline
