import CiPipeline.CommandLine.Run
import CiPipeline.Proofs.CommandLine.Invocation
import CiPipeline.Proofs.Node.BlankLines
import CiPipeline.Proofs.Project

/-!
# One document in one place

A run of `generate` sends the document of its environment to one place, or to none. Where it goes is
decided by the options and by the settings that the named file `Gives`; a file that gives none ends the
run before anything is written. The document itself is fixed by the environment alone
(`generate_delivers_once`). All this holds on any host, however its files fail and its configurations
are decoded.
-/

namespace CiPipeline

/-! ### Files -/

theorem fromUTF8?_toByteArray (text : String) : String.fromUTF8? text.toByteArray = some text :=
  dif_pos text.isValidUTF8

namespace FileSystem

theorem readText_write {files after : FileSystem} {path text : String}
    (written : files.write path text.toUTF8 = .ok after) : after.readText path = .ok text := by
  simp [readText, read_write written, bind, Except.bind, fromUTF8?_toByteArray]

/-- The file that a path names holds a text, and everything else is as it was. -/
structure Receives (files : FileSystem) (path text : String) (after : FileSystem) : Prop where
  holds : after.readText path = .ok text
  others : ∃ place, files.creationPlace path = .ok place ∧
    ∀ other, other ≠ place → after.at? other = files.at? other

theorem receives_of_write {files after : FileSystem} {path text : String}
    (written : files.write path text.toUTF8 = .ok after) : files.Receives path text after := by
  refine ⟨readText_write written, ?_⟩
  unfold write at written
  cases named : files.creationPlace path with
  | error e => rw [named] at written; cases written
  | ok place =>
    rw [named] at written
    cases written
    exact ⟨place, rfl, fun other differs => at?_setEntry_other files _ differs⟩

end FileSystem

namespace CommandLine
variable {σ : Type} {host : Host σ} {files : σ}

/-! ### Settings -/

/-- The settings of the file with this path: none where no file is named or where the file is blank,
else those that its text decodes to. -/
inductive Host.Gives (host : Host σ) (files : σ) : Option String → Config.Given → Prop where
  | unnamed : Gives host files none {}
  | blank {path text : String} {bytes : ByteArray} (read : host.read files path = .ok bytes)
      (utf8 : String.fromUTF8? bytes = some text) (blank : Text.allBlank text.toList = true) :
      Gives host files (some path) {}
  | decoded {path text : String} {bytes : ByteArray} {given : Config.Given}
      (read : host.read files path = .ok bytes) (utf8 : String.fromUTF8? bytes = some text)
      (visible : Text.allBlank text.toList = false) (found : host.decode text = .ok given) :
      Gives host files (some path) given

/-- Where the document goes: to the file of the option, else to that of the settings, else to the
standard output. -/
def target (options : GenerateOptions) (given : Config.Given) : Option String :=
  options.output.or given.output.join

/-- The level of the option, else that of the settings, else the default. -/
def level (options : GenerateOptions) (given : Config.Given) : String :=
  (options.logLevel.or given.logLevel).getD "info"

theorem loadWith_of_gives {path : String} {given : Config.Given}
    (gives : host.Gives files (some path) given) :
    Config.loadWith host.decode path (host.read files path) = .ok given.toConfig := by
  cases gives with
  | blank read utf8 blank =>
    simp [Config.loadWith, read, utf8, Config.ofText, blank, Except.mapError, Config.Given.toConfig]
  | decoded read utf8 visible found =>
    simp [Config.loadWith, read, utf8, Config.ofText, visible, found, Except.map, Except.mapError]

/-- A file that gives no settings cannot be read, is no text, or is a text that is no configuration. -/
theorem loadWith_of_none {path : String} (givesNone : ∀ given, ¬ host.Gives files (some path) given) :
    ∃ e, Config.loadWith host.decode path (host.read files path) = .error e := by
  cases read : host.read files path with
  | error e => exact ⟨_, rfl⟩
  | ok bytes =>
    cases utf8 : String.fromUTF8? bytes with
    | none => exact ⟨.io FileError.notText.message, by simp [Config.loadWith, utf8]⟩
    | some text =>
      cases blank : Text.allBlank text.toList with
      | true => exact absurd (.blank read utf8 blank) (givesNone _)
      | false =>
        cases found : host.decode text with
        | ok given => exact absurd (.decoded read utf8 blank found) (givesNone given)
        | error reason =>
          exact ⟨.config (path ++ ": " ++ reason),
            by simp [Config.loadWith, utf8, Config.ofText, blank, found, Except.map, Except.mapError]⟩

/-! ### Runs -/

variable {options : GenerateOptions} {given : Config.Given}

theorem getD_logLevel (options : GenerateOptions) (given : Config.Given) :
    options.logLevel.getD given.toConfig.logLevel = level options given :=
  Option.getD_or.symm

theorem orElse_output (options : GenerateOptions) (given : Config.Given) :
    (options.output.orElse fun _ => given.toConfig.output) = target options given := by
  cases output : options.output with
  | some path => simp [target, output]
  | none => cases file : given.output <;> simp [target, output, file, Config.Given.toConfig]

theorem resolve_of_gives (gives : host.Gives files options.config given) :
    resolve host.decode (host.read files) options =
      .ok { logLevel := level options given, output := target options given } := by
  rw [← getD_logLevel, ← orElse_output]
  obtain ⟨output, config, logLevel⟩ := options
  cases config with
  | none =>
    cases gives
    rfl
  | some path =>
    simp only [resolve, loadWith_of_gives gives]
    rfl

theorem resolve_of_none (givesNone : ∀ given, ¬ host.Gives files options.config given) :
    ∃ failure, resolve host.decode (host.read files) options = .error failure := by
  obtain ⟨output, config, logLevel⟩ := options
  cases config with
  | none => exact absurd .unnamed (givesNone {})
  | some path =>
    obtain ⟨e, failed⟩ := loadWith_of_none givesNone
    simp only [resolve, failed]
    exact ⟨_, rfl⟩

variable {env : Environment} {document : String}

theorem perform_of_refused (env : Environment)
    (givesNone : ∀ given, ¬ host.Gives files options.config given) :
    ∃ failure, host.perform files env (.generate options) = Host.failed files env failure := by
  obtain ⟨failure, refused⟩ := resolve_of_none givesNone
  exact ⟨failure, by rw [Host.perform, plan, generatePlan, refused]; rfl⟩

theorem perform_of_gives (built : Project.document env = .ok document)
    (gives : host.Gives files options.config given) :
    host.perform files env (.generate options) = host.carryOut files env
      ((target options given).elim (.print document) (.write "pipeline" document)) := by
  rw [Host.perform, plan, generatePlan, resolve_of_gives gives, built]
  cases target options given <;> rfl

theorem perform_of_printed (built : Project.document env = .ok document)
    (gives : host.Gives files options.config given) (printed : target options given = none) :
    host.perform files env (.generate options) = { stdout := document, files := files } := by
  rw [perform_of_gives built gives, printed]
  rfl

theorem perform_of_written (built : Project.document env = .ok document)
    (gives : host.Gives files options.config given) {path : String} (named : target options given = some path)
    {after : σ} (written : host.write files path document.toUTF8 = .ok after) :
    host.perform files env (.generate options) = { files := after } := by
  rw [perform_of_gives built gives, named]
  simp only [Option.elim, Host.carryOut, written]

theorem perform_of_unwritten (built : Project.document env = .ok document)
    (gives : host.Gives files options.config given) {path : String} (named : target options given = some path)
    {e : FileError} (failed : host.write files path document.toUTF8 = .error e) :
    host.perform files env (.generate options) = Host.failed files env (writeFailure "pipeline" path e) := by
  rw [perform_of_gives built gives, named]
  simp only [Option.elim, Host.carryOut, failed]

/-- A run fails where the settings cannot be found and where the document cannot be written. -/
theorem code_perform_eq_zero_iff (built : Project.document env = .ok document) :
    (host.perform files env (.generate options)).code = 0 ↔ ∃ given, host.Gives files options.config given ∧
      ∀ path, target options given = some path →
        ∃ after, host.write files path document.toUTF8 = .ok after := by
  constructor
  · intro succeeded
    by_cases found : ∃ given, host.Gives files options.config given
    · obtain ⟨given, gives⟩ := found
      refine ⟨given, gives, fun path named => ?_⟩
      cases written : host.write files path document.toUTF8 with
      | ok after => exact ⟨after, rfl⟩
      | error e =>
        rw [perform_of_unwritten built gives named written] at succeeded
        cases succeeded
    · obtain ⟨failure, failed⟩ := perform_of_refused env fun given gives => found ⟨given, gives⟩
      rw [failed] at succeeded
      cases succeeded
  · rintro ⟨given, gives, writes⟩
    cases named : target options given with
    | none => rw [perform_of_printed built gives named]
    | some path =>
      obtain ⟨after, written⟩ := writes path named
      rw [perform_of_written built gives named written]

/-- What a run of `generate` comes to when this is the document of its environment. The file that
receives it is in the state that the one write of the run leaves. -/
structure Host.Generates (host : Host σ) (files : σ) (options : GenerateOptions) (document : String)
    (outcome : Outcome σ) : Prop where
  configured : ∀ given, host.Gives files options.config given →
    resolve host.decode (host.read files) options =
      .ok { logLevel := level options given, output := target options given }
  succeeds_iff : outcome.code = 0 ↔ ∃ given, host.Gives files options.config given ∧
    ∀ path, target options given = some path →
      ∃ after, host.write files path document.toUTF8 = .ok after
  printed : ∀ given, host.Gives files options.config given → target options given = none →
    outcome.stdout = document ∧ outcome.files = files
  written : ∀ given path, host.Gives files options.config given → target options given = some path →
    outcome.stdout = "" ∧
      (outcome.code = 0 → host.write files path document.toUTF8 = .ok outcome.files)
  refused : (∀ given, ¬ host.Gives files options.config given) →
    outcome.stdout = "" ∧ outcome.files = files

theorem generates_perform (built : Project.document env = .ok document) :
    host.Generates files options document (host.perform files env (.generate options)) where
  configured := fun given gives => resolve_of_gives gives
  succeeds_iff := code_perform_eq_zero_iff built
  printed := fun given gives named => by
    rw [perform_of_printed built gives named]
    exact ⟨rfl, rfl⟩
  written := fun given path gives named => by
    cases written : host.write files path document.toUTF8 with
    | ok after =>
      rw [perform_of_written built gives named written]
      exact ⟨rfl, fun _ => rfl⟩
    | error e =>
      rw [perform_of_unwritten built gives named written]
      exact ⟨rfl, fun succeeded => by cases succeeded⟩
  refused := fun givesNone => by
    obtain ⟨failure, failed⟩ := perform_of_refused env givesNone
    rw [failed]
    exact ⟨rfl, rfl⟩

theorem run_of_asked {arguments : List String} {asked : Invocation} (same : Invocation.of arguments = asked) :
    host.run files env arguments = host.perform files env asked := by
  rw [Host.run, same]

theorem document_ne_empty (built : Project.document env = .ok document) : document ≠ "" := by
  rw [Project.document_eq] at built
  cases built
  intro empty
  refine Node.documentText_ne_nil (toNode (Pipeline.after {} (Project.declarations env))) ?_
  rw [← Node.toList_document, ← Pipeline.render, empty]
  rfl

/-- The document of an environment is what `generate` sends, whatever its options, the files and the
configuration in them are: on success to the one place that these name, and otherwise nowhere. In a
file system the named file then holds the document and all else is as it was. A run whose arguments
ask for these options comes to just that, and options of every kind can be asked for. -/
theorem generate_delivers_once :
    (∀ env : Environment, ∃ document, Project.document env = .ok document ∧ document ≠ "" ∧
      (∀ (σ : Type) (host : Host σ) (files : σ) (options : GenerateOptions),
        host.Generates files options document (host.perform files env (.generate options))) ∧
      ∀ (tools : Toolkit) (files : FileSystem) (options : GenerateOptions) (given : Config.Given)
          (path : String), (Host.ofFileSystem tools).Gives files options.config given →
        target options given = some path →
        ((Host.ofFileSystem tools).perform files env (.generate options)).code = 0 →
          files.Receives path document
            ((Host.ofFileSystem tools).perform files env (.generate options)).files) ∧
    (∀ (σ : Type) (host : Host σ) (files : σ) (env : Environment) (arguments : List String)
        (options : GenerateOptions), Invocation.of arguments = .generate options →
      host.run files env arguments = host.perform files env (.generate options)) ∧
    ∀ options : GenerateOptions, options.Named → Invocation.of options.arguments = .generate options := by
  refine ⟨fun env => ?_, fun _ _ _ _ _ _ asked => run_of_asked asked, fun _ => of_arguments⟩
  have built := Project.document_eq env
  refine ⟨_, built, document_ne_empty built, fun _ _ _ _ => generates_perform built, ?files⟩
  case files =>
    intro tools files options given path gives named succeeded
    have generates : (Host.ofFileSystem tools).Generates files options _ _ := generates_perform built
    exact FileSystem.receives_of_write ((generates.written given path gives named).2 succeeded)

/-- A directory with a configuration that names the file for the document. -/
def configuredFiles : FileSystem := ⟨[(["ci.yml"], .file "output: out.yml".toUTF8)]⟩

theorem gives_configuredFiles :
    (Host.ofFileSystem .plain).Gives configuredFiles (some "ci.yml") { output := some (some "out.yml") } := by
  have read : (Host.ofFileSystem .plain).read configuredFiles "ci.yml" = .ok "output: out.yml".toUTF8 := rfl
  have found : Toolkit.plain.decode "output: out.yml" = .ok { output := some (some "out.yml") } := by
    decide +kernel
  exact .decoded read (fromUTF8?_toByteArray _) (by decide) found

/-- The configuration names the file, and the option only the level. -/
def leveled : GenerateOptions := { config := some "ci.yml", logLevel := some "debug" }

theorem named_leveled : leveled.Named := ⟨nofun, by decide⟩

theorem lost_configuredFiles (given : Config.Given) :
    ¬ (Host.ofFileSystem .plain).Gives configuredFiles (some "lost.yml") given := by
  have lost : (Host.ofFileSystem .plain).read configuredFiles "lost.yml" = .error .notFound := rfl
  intro gives
  cases gives with
  | blank read => rw [lost] at read; cases read
  | decoded read => rw [lost] at read; cases read

/-- With the configuration the document goes to the file that it names, without options to the standard
output, and with a configuration that is not there nowhere, even where an option names a file. -/
theorem generate_delivers_configured :
    leveled.Named ∧ Invocation.of leveled.arguments = .generate leveled ∧
      (Host.ofFileSystem .plain).Gives configuredFiles leveled.config { output := some (some "out.yml") } ∧
      ∃ document, Project.document {} = .ok document ∧
        (run configuredFiles {} leveled.arguments).code = 0 ∧
        (run configuredFiles {} leveled.arguments).stdout = "" ∧
        configuredFiles.Receives "out.yml" document (run configuredFiles {} leveled.arguments).files ∧
        (run configuredFiles {} ["generate"]).stdout = document ∧
        (run configuredFiles {} ["generate", "-c", "lost.yml", "-o", "out.yml"]).stdout = "" ∧
        (run configuredFiles {} ["generate", "-c", "lost.yml", "-o", "out.yml"]).files = configuredFiles := by
  obtain ⟨performs, runs, asks⟩ := generate_delivers_once
  obtain ⟨document, built, -, generates, receives⟩ := performs {}
  have asked := asks leveled named_leveled
  have configured := generates _ (Host.ofFileSystem .plain) configuredFiles leveled
  have succeeds := configured.succeeds_iff.mpr ⟨_, gives_configuredFiles, fun path named => by
    cases named
    exact ⟨_, rfl⟩⟩
  have bare := generates _ (Host.ofFileSystem .plain) configuredFiles {}
  have lost := generates _ (Host.ofFileSystem .plain) configuredFiles
    { output := some "out.yml", config := some "lost.yml" }
  refine ⟨named_leveled, asked, gives_configuredFiles, document, built, ?_⟩
  rw [run, run, run, runs _ _ _ _ _ _ asked, runs _ _ _ _ ["generate"] {} rfl,
    runs _ _ _ _ ["generate", "-c", "lost.yml", "-o", "out.yml"]
      { output := some "out.yml", config := some "lost.yml" } (by decide +kernel)]
  exact ⟨succeeds, (configured.written _ _ gives_configuredFiles rfl).1,
    receives _ _ _ _ _ gives_configuredFiles rfl succeeds, (bare.printed {} .unnamed rfl).1,
    lost.refused lost_configuredFiles⟩

end CommandLine
end CiPipeline
