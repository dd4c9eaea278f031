import CiPipeline.Environment
import CiPipeline.Pipeline

/-!
# The pipeline of this project

Build, test and lint, and on a tag a publish stage as well. Of the environment only the tag counts.
-/

namespace CiPipeline.Project
open Job (Action)

def version : String := "0.1.0"

def image : Image := .ofVersion "rust" "1.92"

/-- What every job that compiles starts with. -/
def toolchain : List Action :=
  [.image image,
    .setVariable "CARGO_HOME" (VariableGroup.project.reference "DIR" ++ "/.cargo"),
    .cache [.keyFile "Cargo.lock", .keyLabel "cargo", .path ".cargo/registry", .path "target",
      .policy .pullPush]]

def shell (phase : Phase) (text : String) : Action := .script phase [.shell text]

def needs (job : String) : Action := .needs job false false

def compile : List Action :=
  toolchain ++
    [shell .main "cargo build --locked --all-targets",
      .artifacts [.path "target/debug/gitlab-ci-dsl", .expireIn "1 day"]]

def unit : List Action :=
  toolchain ++
    [needs "compile",
      shell .main "cargo test --locked",
      .retry 1 [.cause .runnerSystemFailure, .cause .stuckOrTimeoutFailure]]

def clippy : List Action :=
  toolchain ++
    [shell .before "rustup component add clippy",
      shell .main "cargo clippy --all-targets -- -D warnings"]

def rustfmt : List Action :=
  [.image image,
    shell .before "rustup component add rustfmt",
    shell .main "cargo fmt --check",
    .allowFailure]

def publish : List Action :=
  toolchain ++
    [needs "unit",
      needs "clippy",
      shell .main "cargo publish --locked --token $CARGO_REGISTRY_TOKEN"]

/-- The declarations of every build. -/
def branchDeclarations : List Pipeline.Declaration :=
  [.stage "build", .stage "test", .stage "lint",
    .job "compile" (some "build") compile,
    .job "unit" (some "test") unit,
    .job "clippy" (some "lint") clippy,
    .job "rustfmt" (some "lint") rustfmt]

/-- What a tag adds to them. -/
def tagDeclarations : List Pipeline.Declaration :=
  [.stage "publish", .job "crates_io" (some "publish") publish]

def declarations (env : Environment) : List Pipeline.Declaration :=
  if env.isTag then branchDeclarations ++ tagDeclarations else branchDeclarations

def pipeline (env : Environment) : Except PipelineError Pipeline :=
  Pipeline.build (declarations env)

def document (env : Environment) : Except PipelineError String :=
  (pipeline env).map Pipeline.render

end CiPipeline.Project
