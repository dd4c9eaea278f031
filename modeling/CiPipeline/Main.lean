import CiPipeline.CommandLine.Run

/-!
# The program

Carries the plan of the arguments out on the real files and the real environment.
-/

namespace CiPipeline.Main
open CommandLine

def fileError : IO.Error → FileError
  | .noFileOrDirectory .. => .notFound
  | .inappropriateType _ 20 _ => .notADirectory
  | .inappropriateType .. => .isADirectory
  | e => .other (toString e)

def attempt {α : Type} (action : IO α) : IO (Except FileError α) := do
  try return .ok (← action) catch e => return .error (fileError e)

/-- The variables that a run may ask for: what a pipeline depends on belongs to the commit. -/
def variableNames : List String :=
  verboseName :: VariableGroup.commit.members.map fun member => Environment.plainName member.2

def environment : IO Environment := do
  let pairs ← variableNames.filterMapM fun name => do
    return (← IO.getEnv name).map fun value => (name, value)
  return .ofList pairs

/-- The only file that a plan depends on is the configuration. -/
def reader : Invocation → IO FileReader
  | .generate { config := some path, .. } => do
    let content ← attempt (IO.FS.readBinFile path)
    return fun _ => content
  | _ => return fun _ => .error .notFound

def tell (env : Environment) (failure : Failure) : IO UInt32 := do
  IO.eprint (failure.report (isVerbose env))
  return 1

def finish (env : Environment) : Plan → IO UInt32
  | .print text => do
    IO.print text
    return 0
  | .write what text path => do
    match ← attempt (IO.FS.writeFile path text) with
    | .ok () => return 0
    | .error e => tell env (writeFailure what path e)
  | .fail failure => tell env failure
  | .misuse => do
    IO.eprint Toolkit.plain.help
    return 2

end CiPipeline.Main

def main (arguments : List String) : IO UInt32 := do
  let env ← CiPipeline.Main.environment
  let invocation := CiPipeline.CommandLine.Invocation.of arguments
  let read ← CiPipeline.Main.reader invocation
  CiPipeline.Main.finish env
    (CiPipeline.CommandLine.plan CiPipeline.CommandLine.Toolkit.plain read env invocation)
