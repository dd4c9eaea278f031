import CiPipeline.Error
import CiPipeline.Variables

/-!
# The environment of a build

Predefined variables and what they tell about a build. `read?` is the only access: it takes a name
with or without its dollar sign, and an empty value counts as none.
-/

namespace CiPipeline

/-- Names and values; of two pairs with one name the later counts. -/
structure Environment where
  pairs : List (String × String) := []
  deriving DecidableEq, Repr

namespace Environment

/-- Adds a pair after all others. -/
def set (env : Environment) (name value : String) : Environment := ⟨env.pairs ++ [(name, value)]⟩

/-- The pairs set one after another. -/
def ofList (pairs : List (String × String)) : Environment :=
  pairs.foldl (fun env pair => env.set pair.1 pair.2) {}

def value? (env : Environment) (name : String) : Option String :=
  (env.pairs.reverse.find? (·.1 == name)).map (·.2)

/-- The name without one dollar sign in front. -/
def plainName (reference : String) : String :=
  match reference.toList with
  | '$' :: name => String.ofList name
  | _ => reference

def read? (env : Environment) (reference : String) : Option String :=
  (env.value? (plainName reference)).filter (· != "")

def isCi (env : Environment) : Bool := env.read? (VariableGroup.root.reference "CI") == some "true"

def defaultBranch (env : Environment) : Except PipelineError String :=
  match env.read? (VariableGroup.root.reference "DEFAULT_BRANCH") with
  | some branch => .ok branch
  | none => .error (.missingVariable (VariableGroup.root.reference "DEFAULT_BRANCH"))

def commitBranch? (env : Environment) : Option String := env.read? (VariableGroup.commit.reference "BRANCH")

def commitTag? (env : Environment) : Option String := env.read? (VariableGroup.commit.reference "TAG")

def commitSha? (env : Environment) : Option String := env.read? (VariableGroup.commit.reference "SHA")

def pipelineSource? (env : Environment) : Option String := env.read? (VariableGroup.pipeline.reference "SOURCE")

def projectPath? (env : Environment) : Option String := env.read? (VariableGroup.project.reference "PATH")

def isTag (env : Environment) : Bool := env.commitTag?.isSome

def isMergeRequest (env : Environment) : Bool := env.pipelineSource? == some "merge_request_event"

def isDefaultBranch (env : Environment) : Bool :=
  match env.commitBranch?, env.defaultBranch with
  | some branch, .ok default => branch == default
  | _, _ => false

@[simp] theorem pairs_set (env : Environment) (name value : String) :
    (env.set name value).pairs = env.pairs ++ [(name, value)] := rfl

theorem pairs_foldl_set (env : Environment) (pairs : List (String × String)) :
    (pairs.foldl (fun env pair => env.set pair.1 pair.2) env).pairs = env.pairs ++ pairs := by
  induction pairs generalizing env with
  | nil => simp
  | cons pair pairs ih => simp [ih]

theorem pairs_ofList (pairs : List (String × String)) : (ofList pairs).pairs = pairs := by
  rw [ofList, pairs_foldl_set, List.nil_append]

end Environment
end CiPipeline
