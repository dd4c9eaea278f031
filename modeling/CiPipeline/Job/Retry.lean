import CiPipeline.Collection.OrderedSet
import CiPipeline.Node.Conversion

/-!
# Retries

How often a failed job runs again, and after which failures.
-/

namespace CiPipeline

inductive RetryCause where
  | always
  | unknownFailure
  | scriptFailure
  | apiFailure
  | stuckOrTimeoutFailure
  | runnerSystemFailure
  | runnerUnsupported
  | staleSchedule
  | jobExecutionTimeout
  | archivedFailure
  | unmetPrerequisites
  | schedulerFailure
  | dataIntegrityFailure
  deriving DecidableEq, Repr

def RetryCause.text : RetryCause → String
  | always => "always"
  | unknownFailure => "unknown_failure"
  | scriptFailure => "script_failure"
  | apiFailure => "api_failure"
  | stuckOrTimeoutFailure => "stuck_or_timeout_failure"
  | runnerSystemFailure => "runner_system_failure"
  | runnerUnsupported => "runner_unsupported"
  | staleSchedule => "stale_schedule"
  | jobExecutionTimeout => "job_execution_timeout"
  | archivedFailure => "archived_failure"
  | unmetPrerequisites => "unmet_prerequisites"
  | schedulerFailure => "scheduler_failure"
  | dataIntegrityFailure => "data_integrity_failure"

instance : ToNode RetryCause := ⟨fun cause => .str cause.text⟩

/-- The members of a set as a value: none, the only one, or a list of them. -/
def OrderedSet.scalarOrList {α : Type} [ToNode α] (s : OrderedSet α) : Option Node :=
  match s.toList with
  | [] => none
  | [a] => some (toNode a)
  | items => some (toNode items)

def maxRetries : Nat := 2

structure Retry where
  max : Fin (maxRetries + 1)
  causes : OrderedSet RetryCause := .empty
  exitCodes : OrderedSet Int32 := .empty
  deriving BEq

namespace Retry

def ofMax (max : UInt32) : Except ValidationError Retry :=
  if h : max.toNat ≤ maxRetries then .ok { max := ⟨max.toNat, Nat.lt_succ_of_le h⟩ }
  else .error (.invalidRetryMax max)

/-- A failure after which a job runs again. -/
inductive Trigger where
  | cause (cause : RetryCause)
  | exitCode (code : Int32)
  deriving DecidableEq, Repr

def apply (retry : Retry) : Trigger → Retry
  | .cause cause => { retry with causes := retry.causes.insert cause }
  | .exitCode code => { retry with exitCodes := retry.exitCodes.insert code }

def configure (retry : Retry) (triggers : List Trigger) : Retry := triggers.foldl apply retry

def maxNode (retry : Retry) : Node := .int (Int64.ofNat retry.max)

end Retry

instance : ToNode Retry := ⟨fun retry =>
  if retry.causes.isEmpty && retry.exitCodes.isEmpty then retry.maxNode
  else
    toNode <| (Mapping.empty.add "max" retry.maxNode)
      |>.addOpt "when" retry.causes.scalarOrList
      |>.addOpt "exit_codes" retry.exitCodes.scalarOrList⟩

end CiPipeline
