import CiPipeline.Node.Conversion

/-!
# Scripts

A phase of a job is a list of commands. A block of actions adds commands to it and may ask how many
there are; `run_append` says that a block may be split anywhere.
-/

namespace CiPipeline

inductive Command where
  | shell (text : String)
  deriving DecidableEq, Repr

/-- The form in which a command is shown to a reader, and not the form in which it is exported. -/
def Command.display : Command → String
  | shell text => "sh(" ++ text ++ ")"

instance : ToNode Command := ⟨fun | .shell text => .str text⟩

namespace Script

inductive Action where
  | shell (text : String)
  | shells (texts : List String)
  | command (command : Command)
  | length
  | isEmpty
  deriving DecidableEq, Repr

inductive Answer where
  | length (count : Nat)
  | isEmpty (empty : Bool)
  deriving DecidableEq, Repr

def Action.commands : Action → List Command
  | .shell text => [.shell text]
  | .shells texts => texts.map .shell
  | .command c => [c]
  | .length | .isEmpty => []

/-- Questions count the commands of the whole phase so far. -/
def Action.answers (commands : List Command) : Action → List Answer
  | .length => [.length commands.length]
  | .isEmpty => [.isEmpty commands.isEmpty]
  | _ => []

/-- The commands after the block, and its answers in order. -/
def run (commands : List Command) : List Action → List Command × List Answer
  | [] => (commands, [])
  | action :: actions =>
    let rest := run (commands ++ action.commands) actions
    (rest.1, action.answers commands ++ rest.2)

theorem run_fst (commands : List Command) (actions : List Action) :
    (run commands actions).1 = commands ++ actions.flatMap Action.commands := by
  induction actions generalizing commands with
  | nil => simp [run]
  | cons action actions ih => simp [run, ih]

theorem run_append (commands : List Command) (first second : List Action) :
    run commands (first ++ second) =
      let middle := run commands first
      let last := run middle.1 second
      (last.1, middle.2 ++ last.2) := by
  induction first generalizing commands with
  | nil => simp [run]
  | cons action first ih => simp [run, ih]

end Script
end CiPipeline
