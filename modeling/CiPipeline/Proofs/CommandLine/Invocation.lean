import CiPipeline.CommandLine.Invocation

/-!
# Asking for options

Any options of `generate` can be asked for on the command line, as long as they name no file by an
empty path: `arguments` spells them out, and `Invocation.of` reads them back (`of_arguments`).
-/

namespace CiPipeline.CommandLine

/-- The option with its value in one argument. -/
def Flag.argument (flag : Flag) (value : String) : String := "--" ++ flag.longName ++ "=" ++ value

def Flag.arguments (flag : Flag) (value : Option String) : List String :=
  value.toList.map flag.argument

def GenerateOptions.arguments (options : GenerateOptions) : List String :=
  "generate" :: (Flag.output.arguments options.output ++
    (Flag.config.arguments options.config ++ Flag.logLevel.arguments options.logLevel))

/-- No file is named by an empty path. -/
def GenerateOptions.Named (options : GenerateOptions) : Prop :=
  options.output ≠ some "" ∧ options.config ≠ some ""

theorem argument_of_flag (flag : Flag) (value : String) :
    Argument.of (flag.argument value) = .long flag.longName (some value) := by
  have name : flag.longName.toList.all (· != '=') = true := by cases flag <;> decide
  have text : (flag.argument value).toList =
      '-' :: '-' :: (flag.longName.toList ++ '=' :: value.toList) := by
    simp [Flag.argument]
  have front : (flag.longName.toList ++ '=' :: value.toList).takeWhile (· != '=') =
      flag.longName.toList := by
    rw [List.takeWhile_append_of_pos (List.all_eq_true.mp name)]
    simp
  unfold Argument.of
  rw [text]
  simp [front]

theorem parse_argument {p p' : Parsed} {flag : Flag} {value : String}
    (added : p.add? flag value = some p') (rest : List String) :
    parse generateRules false p (flag.argument value :: rest) = parse generateRules false p' rest := by
  rw [parse, argument_of_flag]
  cases flag <;> simp [generateRules, Flag.longName, added]

theorem value?_mk_cons (values : List (Flag × String)) (words : List String) (flag other : Flag)
    (value : String) : Parsed.value? ⟨(flag, value) :: values, words⟩ other =
      if flag = other then some value else Parsed.value? ⟨values, words⟩ other := by
  by_cases same : flag = other <;> simp [Parsed.value?, same]

/-- An option that is not given yet may be given, or left out. -/
theorem parse_arguments {p : Parsed} {flag : Flag} (fresh : p.value? flag = none) {value : Option String}
    (admitted : ∀ v, value = some v → flag.admits v = true) (rest : List String) :
    ∃ p' : Parsed, parse generateRules false p (flag.arguments value ++ rest) =
        parse generateRules false p' rest ∧
      p'.value? flag = value ∧ ∀ other, flag ≠ other → p'.value? other = p.value? other := by
  cases value with
  | none => exact ⟨p, rfl, fresh, fun _ _ => rfl⟩
  | some v =>
    have added : p.add? flag v = some { p with values := (flag, v) :: p.values } := by
      simp [Parsed.add?, admitted v rfl, fresh]
    refine ⟨_, parse_argument added rest, ?_, fun other differs => ?_⟩
    · rw [value?_mk_cons, if_pos rfl]
    · rw [value?_mk_cons, if_neg differs]

theorem admits_of_ne_empty {flag : Flag} {value : Option String} (named : value ≠ some "") (v : String)
    (given : value = some v) : flag.admits v = true := by
  subst given
  cases flag with
  | logLevel => rfl
  | output | config => simpa [Flag.admits] using named

theorem of_arguments {options : GenerateOptions} (named : options.Named) :
    Invocation.of options.arguments = .generate options := by
  obtain ⟨outputNamed, configNamed⟩ := named
  have start : ∀ flag : Flag, Parsed.value? {} flag = none := fun _ => rfl
  -- the options are read one after another, and each keeps the values of those before it
  obtain ⟨p, first, output, kept⟩ := parse_arguments (start .output) (admits_of_ne_empty outputNamed)
    (Flag.config.arguments options.config ++ (Flag.logLevel.arguments options.logLevel ++ []))
  obtain ⟨q, second, config, kept'⟩ := parse_arguments ((kept .config (by decide)).trans (start _))
    (admits_of_ne_empty configNamed) (Flag.logLevel.arguments options.logLevel ++ [])
  obtain ⟨r, third, level, kept''⟩ := parse_arguments
    (((kept' .logLevel (by decide)).trans (kept _ (by decide))).trans (start _)) (fun _ _ => rfl) []
  have parsed := (first.trans second).trans third
  rw [List.append_nil, parse] at parsed
  have output' := ((kept'' .output (by decide)).trans (kept' _ (by decide))).trans output
  have config' := (kept'' .config (by decide)).trans config
  have asked : Argument.of "generate" = .word "generate" := by decide
  rw [GenerateOptions.arguments, Invocation.of, asked]
  show generateOf _ = _
  rw [generateOf, parsed]
  simp only [output', config', level]

end CiPipeline.CommandLine
