import CiPipeline.CommandLine.Invocation
import CiPipeline.Config
import CiPipeline.Project

/-!
# Runs of the command line

`plan` says what an invocation comes to once the files have been read: a text for the standard
output, a text for a file, or a failure. `Host.perform` carries the plan out on the files of a host;
`Host.run` starts from the arguments, and `run` does so on a file system. `generate` sends its one
document to the file named by the option, else to the file named by the configuration, else to the
standard output.
-/

namespace CiPipeline.CommandLine

/-- Why a command failed, and what the reason for that was. -/
structure Failure where
  message : String
  cause : String
  deriving DecidableEq, Repr

inductive Plan where
  | print (text : String)
  /-- `what` names the text when it cannot be written. -/
  | write (what text path : String)
  | fail (failure : Failure)
  | misuse
  deriving DecidableEq, Repr

/-- What reading a path gives. -/
abbrev FileReader := String → Except FileError ByteArray

/-- The configuration in force: an option wins over the file, and the file over the default. -/
def resolve (decode : Config.Decoder) (read : FileReader) (options : GenerateOptions) :
    Except Failure Config := do
  let config ← match options.config with
    | none => .ok {}
    | some path =>
      (Config.loadWith decode path (read path)).mapError fun e =>
        ⟨"Failed to load configuration: " ++ path, e.message⟩
  return {
    logLevel := options.logLevel.getD config.logLevel
    output := options.output.orElse fun _ => config.output }

def generatePlan (decode : Config.Decoder) (read : FileReader) (env : Environment)
    (options : GenerateOptions) : Plan :=
  match resolve decode read options with
  | .error failure => .fail failure
  | .ok config =>
    match Project.document env with
    | .error e => .fail ⟨"Failed to build the pipeline", e.message⟩
    | .ok document =>
      match config.output with
      | some path => .write "pipeline" document path
      | none => .print document

/-- What a program gets from elsewhere: how configurations are decoded, and the texts that are made from
the description of its arguments. -/
structure Toolkit where
  decode : Config.Decoder
  /-- The script that completes the names of the commands. -/
  completions : Shell → String
  help : String

/-- The decoder of this library; the generated texts are left out. -/
def Toolkit.plain : Toolkit where
  decode := Config.Given.decode
  completions := fun _ => ""
  help := ""

def completionsPlan (script : String) : Option String → Plan
  | some path => .write "completions" script path
  | none => .print (script ++ "\n")

def versionText : String := "gitlab-ci-dsl " ++ Project.version ++ "\n"

def plan (tools : Toolkit) (read : FileReader) (env : Environment) : Invocation → Plan
  | .generate options => generatePlan tools.decode read env options
  | .completions shell output => completionsPlan (tools.completions shell) output
  | .version => .print versionText
  | .help => .print tools.help
  | .misuse => .misuse

def writeFailure (what path : String) (e : FileError) : Failure :=
  ⟨"Failed to write " ++ what ++ " to: " ++ path, e.message⟩

/-- The cause is told only on request. -/
def Failure.report (f : Failure) (verbose : Bool) : String :=
  "Error: " ++ f.message ++ "\n" ++
    if verbose then f.message ++ "\n\nCaused by:\n    " ++ f.cause ++ "\n" else ""

def verboseName : String := "GITLAB_CI_DSL_VERBOSE"

def isVerbose (env : Environment) : Bool := (env.value? verboseName).isSome

/-- What a program meets when it runs: its toolkit, and files in some state, which are read and written
and may fail in either. -/
structure Host (σ : Type) extends Toolkit where
  read : σ → FileReader
  write : σ → (path : String) → (content : ByteArray) → Except FileError σ

/-- What a run leaves behind. -/
structure Outcome (σ : Type) where
  code : UInt8 := 0
  stdout : String := ""
  stderr : String := ""
  files : σ

namespace Host
variable {σ : Type}

def failed (files : σ) (env : Environment) (failure : Failure) : Outcome σ :=
  { code := 1, stderr := failure.report (isVerbose env), files }

def carryOut (host : Host σ) (files : σ) (env : Environment) : Plan → Outcome σ
  | .print text => { stdout := text, files }
  | .write what text path =>
    match host.write files path text.toUTF8 with
    | .ok files => { files }
    | .error e => failed files env (writeFailure what path e)
  | .fail failure => failed files env failure
  | .misuse => { code := 2, stderr := host.help, files }

def perform (host : Host σ) (files : σ) (env : Environment) (asked : Invocation) : Outcome σ :=
  host.carryOut files env (plan host.toToolkit (host.read files) env asked)

def run (host : Host σ) (files : σ) (env : Environment) (arguments : List String) : Outcome σ :=
  host.perform files env (Invocation.of arguments)

/-- The host whose files are a file system. -/
def ofFileSystem (tools : Toolkit) : Host FileSystem where
  toToolkit := tools
  read := FileSystem.read
  write := FileSystem.write

end Host

def run (files : FileSystem) (env : Environment) (arguments : List String) : Outcome FileSystem :=
  (Host.ofFileSystem .plain).run files env arguments

end CiPipeline.CommandLine
