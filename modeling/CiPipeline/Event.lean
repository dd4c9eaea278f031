import CiPipeline.Decimal.Digits

/-!
# Log events

What a pipeline reports while it is declared, rendered and written.
-/

namespace CiPipeline

inductive Level where
  | debug
  | warn
  deriving DecidableEq, Repr

inductive Event where
  | stageRegistered (stage : String)
  | stageRegisteredFromJob (stage : String)
  | jobRegistered (job : String)
  | jobReplaced (job : String)
  | imageReplaced (job previous image : String)
  | rendering (stages jobs : Nat)
  | written (path : String)
  deriving DecidableEq, Repr

namespace Event

def level : Event → Level
  | jobReplaced _ | imageReplaced .. => .warn
  | _ => .debug

def message : Event → String
  | stageRegistered _ => "Stage registered"
  | stageRegisteredFromJob _ => "Stage registered from job"
  | jobRegistered _ => "Job registered"
  | jobReplaced _ => "Job declared twice, replacing the earlier one"
  | imageReplaced .. => "Job image set twice, keeping the latest"
  | rendering .. => "Rendering pipeline"
  | written _ => "Pipeline written"

def fields : Event → List (String × String)
  | stageRegistered stage | stageRegisteredFromJob stage => [("stage", stage)]
  | jobRegistered job | jobReplaced job => [("job", job)]
  | imageReplaced job previous image => [("job", job), ("previous", previous), ("image", image)]
  | rendering stages jobs =>
    [("stages", String.ofList (Decimal.ofNat stages)), ("jobs", String.ofList (Decimal.ofNat jobs))]
  | written path => [("path", path)]

end Event
end CiPipeline
