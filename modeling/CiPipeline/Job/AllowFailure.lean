import CiPipeline.Collection.OrderedSet
import CiPipeline.Node.Conversion

/-!
# Allowed failures

Whether a pipeline passes in spite of a failed job: always, never, or at some exit codes.
-/

namespace CiPipeline

inductive AllowFailure where
  | flag (allowed : Bool)
  | exitCodes (codes : OrderedSet Int32)
  deriving BEq

namespace AllowFailure

/-- A flag gives way to the set of codes. -/
def addExitCode (allowed : AllowFailure) (code : Int32) : AllowFailure :=
  match allowed with
  | flag _ => exitCodes (OrderedSet.empty.insert code)
  | exitCodes codes => exitCodes (codes.insert code)

end AllowFailure

instance : ToNode AllowFailure := ⟨fun
  | .flag allowed => .bool allowed
  | .exitCodes codes => toNode (Mapping.empty.add "exit_codes" codes.toList)⟩

end CiPipeline
