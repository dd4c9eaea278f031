import CiPipeline.Decimal.Digits

/-!
# Errors

`ValidationError` is a value that the model refuses, `PipelineError` any reason why a pipeline cannot
be built or written. `message` is the text shown to a user.
-/

namespace CiPipeline

inductive ValidationError where
  | emptyName
  | invalidRetryMax (value : UInt32)
  /-- `key` is the document text of the refused key. -/
  | nonScalarKey (key : String)
  deriving DecidableEq, Repr

def ValidationError.message : ValidationError → String
  | emptyName => "Name cannot be empty"
  | invalidRetryMax value =>
    "Invalid retry max: must be 0, 1 or 2, got " ++ String.ofList (Decimal.ofNat value.toNat)
  | nonScalarKey key => "Only scalar map keys are supported, got: " ++ key

inductive PipelineError where
  | validation (cause : ValidationError)
  | missingVariable (name : String)
  | config (text : String)
  | io (text : String)
  deriving DecidableEq, Repr

def PipelineError.message : PipelineError → String
  | validation cause => "Validation failed: " ++ cause.message
  | missingVariable name => "Missing CI variable: " ++ name
  | config text => "Configuration error: " ++ text
  | io text => "IO error: " ++ text

end CiPipeline
