/-!
# Invocations

What a list of arguments asks for. Arguments are read from left to right, and the first that cannot
be read, or that asks for help, decides.
-/

namespace CiPipeline.CommandLine

inductive Shell where
  | bash
  | zsh
  | fish
  | powerShell
  deriving DecidableEq, Repr

def Shell.ofName? : String → Option Shell
  | "bash" => some .bash
  | "zsh" => some .zsh
  | "fish" => some .fish
  | "power-shell" => some .powerShell
  | _ => none

structure GenerateOptions where
  output : Option String := none
  config : Option String := none
  logLevel : Option String := none
  deriving DecidableEq, Repr

inductive Invocation where
  | generate (options : GenerateOptions)
  | completions (shell : Shell) (output : Option String)
  | version
  | help
  /-- The arguments break the rules of the command line. -/
  | misuse
  deriving DecidableEq, Repr

/-- An argument by its shape. -/
inductive Argument where
  | long (name : String) (value : Option String)
  | short (letter : Char) (rest : List Char)
  /-- Two dashes alone: what follows is no option. -/
  | separator
  | word (text : String)
  deriving DecidableEq, Repr

def Argument.of (text : String) : Argument :=
  match text.toList with
  | ['-', '-'] => separator
  | '-' :: '-' :: rest =>
    let name := rest.takeWhile (· != '=')
    let value := rest.drop name.length
    long (String.ofList name) (if value.isEmpty then none else some (String.ofList value.tail))
  | '-' :: letter :: rest => short letter rest
  | _ => word text

/-- The options that take a value. -/
inductive Flag where
  | output
  | config
  | logLevel
  deriving DecidableEq, Repr

def Flag.longName : Flag → String
  | output => "output"
  | config => "config"
  | logLevel => "log-level"

def Flag.letter : Flag → Char
  | output => 'o'
  | config => 'c'
  | logLevel => 'l'

/-- A path is never empty. -/
def Flag.admits : Flag → String → Bool
  | logLevel, _ => true
  | output, value | config, value => value != ""

/-- The options and words of a command read so far. -/
structure Parsed where
  values : List (Flag × String) := []
  words : List String := []

def Parsed.value? (p : Parsed) (flag : Flag) : Option String :=
  (p.values.find? (·.1 == flag)).map (·.2)

/-- An option may be given once. -/
def Parsed.add? (p : Parsed) (flag : Flag) (value : String) : Option Parsed :=
  if flag.admits value && (p.value? flag).isNone then
    some { p with values := (flag, value) :: p.values }
  else none

/-- The rules of a command: its options, and which word may follow the given ones. -/
structure Rules where
  flags : List Flag
  admitsWord : List String → String → Bool

/-- Reads the arguments of a command; on the left is what it asks for instead. -/
def parse (rules : Rules) : Bool → Parsed → List String → Except Invocation Parsed
  | _, p, [] => .ok p
  | escaped, p, argument :: rest =>
    let word (p : Parsed) : Except Invocation Parsed :=
      if rules.admitsWord p.words argument then
        parse rules escaped { p with words := p.words ++ [argument] } rest
      else .error .misuse
    let withValue (flag : Option Flag) (attached : Option String) : Except Invocation Parsed :=
      match flag, attached with
      | none, _ => .error .misuse
      | some flag, some value =>
        match p.add? flag value with
        | some p => parse rules escaped p rest
        | none => .error .misuse
      | some flag, none =>
        match rest with
        | [] => .error .misuse
        | value :: rest =>
          match Argument.of value, p.add? flag value with
          | .word _, some p => parse rules escaped p rest
          | _, _ => .error .misuse
    if escaped then word p
    else match Argument.of argument with
      | .separator => parse rules true p rest
      | .word _ => word p
      | .long "help" none => .error .help
      | .long name value => withValue (rules.flags.find? (·.longName == name)) value
      | .short 'h' _ => .error .help
      | .short letter attached =>
        withValue (rules.flags.find? (·.letter == letter)) <|
          match attached with
          | [] => none
          | '=' :: value => some (String.ofList value)
          | value => some (String.ofList value)

def generateRules : Rules := ⟨[.output, .config, .logLevel], fun _ _ => false⟩

def completionsRules : Rules :=
  ⟨[.output], fun words word => words.isEmpty && (Shell.ofName? word).isSome⟩

def generateOf (arguments : List String) : Invocation :=
  match parse generateRules false {} arguments with
  | .error asked => asked
  | .ok p =>
    .generate { output := p.value? .output, config := p.value? .config, logLevel := p.value? .logLevel }

def completionsOf (arguments : List String) : Invocation :=
  match parse completionsRules false {} arguments with
  | .error asked => asked
  | .ok p =>
    match p.words.head?.bind Shell.ofName? with
    | some shell => .completions shell (p.value? .output)
    | none => .misuse

/-- Help on at most one command. -/
def helpOf : List String → Invocation
  | [] | ["generate"] | ["completions"] | ["help"] => .help
  | _ => .misuse

def Invocation.of : List String → Invocation
  | [] => .misuse
  | argument :: rest =>
    match Argument.of argument with
    | .word "generate" => generateOf rest
    | .word "completions" => completionsOf rest
    | .word "help" => helpOf rest
    | .long "version" none | .short 'V' _ => .version
    | .long "help" none | .short 'h' _ => .help
    | _ => .misuse

end CiPipeline.CommandLine
