import CiPipeline.Node.Conversion

/-!
# Outcomes of a job

The outcomes of a job after which its files are kept.
-/

namespace CiPipeline

inductive When where
  | always
  | onSuccess
  | onFailure
  deriving DecidableEq, Repr, Inhabited

def When.text : When → String
  | always => "always"
  | onSuccess => "on_success"
  | onFailure => "on_failure"

instance : ToNode When := ⟨fun w => .str w.text⟩

end CiPipeline
