import CiPipeline.Proofs.Job.Keys

/-!
# The collections of a job

Commands add up, tags and services are kept once, dependencies each time, and a variable keeps its place
and changes its value: `exports_of_calls` says of each collection what is exported of it. How commands
are divided among blocks is forgotten (`outcome_flatMap_expand`), and a service is known by what its
settings leave in it (`Service.configure_eq`).
-/

namespace CiPipeline
open Mapping

/-! ### Services from their settings -/

namespace Service

namespace Setting

def entrypoint? : Setting → Option (List String)
  | .entrypoint words => some words
  | _ => none

def hostName? : Setting → Option String
  | .hostName host => some host
  | _ => none

def command? : Setting → Option (List String)
  | .command words => some words
  | _ => none

end Setting

/-- Of the settings of a field the last one holds. -/
theorem configure_eq (name version : String) (settings : List Setting) :
    (ofVersion name version).configure settings = {
      image.name := name ++ ":" ++ version
      image.entrypoint := (settings.filterMap Setting.entrypoint?).getLast?
      hostName := (settings.filterMap Setting.hostName?).getLast?
      command := (settings.filterMap Setting.command?).getLast?.getD [] } := by
  induction settings using List.reverseRecOn with
  | nil => rfl
  | append_singleton settings setting ih =>
    rw [configure, List.foldl_concat, ← configure, ih]
    cases setting <;>
      simp [apply, Image.apply, List.filterMap_cons, Setting.entrypoint?, Setting.hostName?, Setting.command?]

theorem configure_eq_iff {name version name' version' : String} {settings settings' : List Setting} :
    (ofVersion name version).configure settings = (ofVersion name' version').configure settings' ↔
      name ++ ":" ++ version = name' ++ ":" ++ version' ∧
      (settings.filterMap Setting.entrypoint?).getLast? = (settings'.filterMap Setting.entrypoint?).getLast? ∧
      (settings.filterMap Setting.hostName?).getLast? = (settings'.filterMap Setting.hostName?).getLast? ∧
      (settings.filterMap Setting.command?).getLast?.getD [] =
        (settings'.filterMap Setting.command?).getLast?.getD [] := by
  rw [configure_eq, configure_eq, Service.mk.injEq, Image.mk.injEq, and_assoc]

end Service

namespace Job

/-! ### Commands in blocks of their own -/

/-- What a run leaves behind, without the answers on the way. -/
def Run.outcome (run : Run) : Job × List Event × Option PipelineError := (run.job, run.events, run.error)

/-- The same action with each command in a block of its own. -/
def Action.expand : Action → List Action
  | .script phase actions =>
    (actions.flatMap Script.Action.texts).map fun text => .script phase [.shell text]
  | action => [action]

@[simp] theorem setCommands_commands (job : Job) (phase : Phase) :
    job.setCommands phase (job.commands phase) = job := by
  cases phase <;> rfl

@[simp] theorem commands_setCommands (job : Job) (phase : Phase) (commands : List Command) :
    (job.setCommands phase commands).commands phase = commands := by
  cases phase <;> rfl

@[simp] theorem setCommands_setCommands (job : Job) (phase : Phase) (first second : List Command) :
    (job.setCommands phase first).setCommands phase second = job.setCommands phase second := by
  cases phase <;> rfl

/-- What follows an action decides the outcome. -/
theorem outcome_run_cons {first second : List Action}
    (same : ∀ job : Job, (job.run first).outcome = (job.run second).outcome) (job : Job) (action : Action) :
    (job.run (action :: first)).outcome = (job.run (action :: second)).outcome := by
  cases done : job.step action with
  | error e => rw [run_cons_error done, run_cons_error done]
  | ok effect =>
    have rest := same effect.job
    simp only [Run.outcome, Prod.mk.injEq] at rest ⊢
    rw [run_cons_ok done, run_cons_ok done]
    exact ⟨rest.1, congrArg (effect.events ++ ·) rest.2.1, rest.2.2⟩

theorem outcome_run_script (job : Job) (phase : Phase) (actions : List Script.Action) (rest : List Action) :
    (job.run (.script phase actions :: rest)).outcome =
      ((job.setCommands phase
        (job.commands phase ++ (actions.flatMap Script.Action.texts).map .shell)).run rest).outcome := by
  rw [← run_commands_fst]
  rfl

theorem outcome_run_shells (job : Job) (phase : Phase) (texts : List String) (rest : List Action) :
    (job.run (texts.map (fun text => .script phase [.shell text]) ++ rest)).outcome =
      ((job.setCommands phase (job.commands phase ++ texts.map .shell)).run rest).outcome := by
  induction texts generalizing job with
  | nil => simp
  | cons text texts ih =>
    rw [List.map_cons, List.cons_append, outcome_run_script, ih]
    simp [Script.Action.texts]

theorem outcome_flatMap_expand (job : Job) (block : List Action) :
    (job.run (block.flatMap Action.expand)).outcome = (job.run block).outcome := by
  induction block generalizing job with
  | nil => rfl
  | cons action block ih =>
    rw [List.flatMap_cons]
    cases action with
    | script phase actions => rw [Action.expand, outcome_run_shells, ih, outcome_run_script]
    | _ => exact outcome_run_cons ih job _

/-- Blocks that give the same commands in the same places have the same outcome. -/
theorem outcome_eq_of_expand {first second : List Action}
    (same : first.flatMap Action.expand = second.flatMap Action.expand) (job : Job) :
    (job.run first).outcome = (job.run second).outcome := by
  rw [← outcome_flatMap_expand, same, outcome_flatMap_expand]

/-! ### Questions -/

/-- A block that asks for the number of commands is told that of its whole phase. -/
theorem length_answer (commands : List Command) (asked more : List Script.Action) :
    ∃ later, (Script.run commands (asked ++ .length :: more)).2 =
      (Script.run commands asked).2 ++
        .length (commands.length + (asked.flatMap Script.Action.texts).length) :: later := by
  refine ⟨(Script.run (commands ++ (asked.flatMap Script.Action.texts).map .shell) more).2, ?_⟩
  simp only [Script.run_append, run_commands_fst]
  simp [Script.run, Script.Action.commands, Script.Action.answers]

/-! ### The export -/

/-- The collections of a job from its calls: the commands of each phase in order, however they are divided
among blocks, all of them counted when a block asks; each tag and each service where it first occurs, a
service being what its settings leave of it; every dependency; each variable where it is first defined,
with its last value; and the last coverage. -/
theorem exports_of_calls (name : String) (stage : Option String) (block : List Action) :
    let job := ((fresh name stage).run block).job
    let calls := performed block
    let defined := calls.filterMap Action.definition?
    (∀ phase, (toNode job).get? (phaseKey phase) = listed (calls.flatMap (Action.texts phase))) ∧
    (∀ front phase first second rest,
      ((fresh name stage).run (front ++ .script phase (first ++ second) :: rest)).outcome =
        ((fresh name stage).run (front ++ .script phase first :: .script phase second :: rest)).outcome) ∧
    (∀ front phase first texts second rest,
      ((fresh name stage).run (front ++ .script phase (first ++ .shells texts :: second) :: rest)).outcome =
        ((fresh name stage).run
          (front ++ .script phase (first ++ texts.map .shell ++ second) :: rest)).outcome) ∧
    (∀ phase asked more, ∃ effect later,
      job.step (.script phase (asked ++ .length :: more)) = .ok effect ∧
      effect.answer = .script ((Script.run (job.commands phase) asked).2 ++
        .length ((calls.flatMap (Action.texts phase)).length +
          (asked.flatMap Script.Action.texts).length) :: later)) ∧
    (toNode job).get? "tags" = listed (calls.filterMap Action.tag?).eraseDups ∧
    (toNode job).get? "services" = listed (calls.filterMap Action.service?).eraseDups ∧
    (∀ image version settings image' version' settings',
      ((Service.ofVersion image version).configure settings =
          (Service.ofVersion image' version').configure settings' ↔
        image ++ ":" ++ version = image' ++ ":" ++ version' ∧
        (settings.filterMap Service.Setting.entrypoint?).getLast? =
          (settings'.filterMap Service.Setting.entrypoint?).getLast? ∧
        (settings.filterMap Service.Setting.hostName?).getLast? =
          (settings'.filterMap Service.Setting.hostName?).getLast? ∧
        (settings.filterMap Service.Setting.command?).getLast?.getD [] =
          (settings'.filterMap Service.Setting.command?).getLast?.getD [])) ∧
    (∀ first second : Service, toNode first = toNode second ↔ first = second) ∧
    (toNode job).get? "needs" = listed (calls.filterMap (Action.dependency? name)) ∧
    (toNode job).get? "variables" = exportedVariables defined ∧
    (lastOfEach (·.1) defined).map (·.1) = (defined.map (·.1)).eraseDups ∧
    (toNode job).get? "coverage" =
      (calls.filterMap Action.regex?).getLast?.map fun regex => .str ("/" ++ regex ++ "/") := by
  intro job calls defined
  have exported : ∀ g : Group, (toNode job).get? g.key = g.exported name calls := get?_run
  refine ⟨fun phase => exported (.script phase), fun front phase first second rest => ?_,
    fun front phase first texts second rest => ?_, fun phase asked more => ?_, exported .tags, exported .services,
    fun _ _ _ _ _ _ => Service.configure_eq_iff, fun _ _ => ⟨toNode_service_injective, congrArg toNode⟩,
    exported .needs, exported .vars, map_key_lastOfEach _ _, exported .coverage⟩
  · exact outcome_eq_of_expand (by simp [Action.expand]) _
  · exact outcome_eq_of_expand (by simp [Action.expand, Script.Action.texts, List.flatMap_map]) _
  · obtain ⟨later, answered⟩ := length_answer (job.commands phase) asked more
    refine ⟨_, later, rfl, congrArg Answer.script (answered.trans ?_)⟩
    rw [commands_run, List.length_map]

/-- Commands in three blocks, a service that is configured twice to the same end, a variable that gets
another value, a dependency that is declared twice and two coverages. -/
def repeated : List Action :=
  [.script .main [.shell "make"], .service ((Service.ofVersion "redis" "7").configure [.hostName "cache"]),
    .setVariable "A" "1", .setVariable "B" "2", .needs "lint" false false, .coverage "total", .script .main [],
    .service ((Service.ofVersion "redis" "7").configure [.command ["sh"], .hostName "cache", .command []]),
    .setVariable "A" "3", .needs "lint" false false, .coverage "lines",
    .script .main [.length, .shells ["test", "pack"]]]

theorem exports_repeated :
    let node := toNode ((fresh "build" none).run repeated).job
    node.get? "script" = some (.list [.str "make", .str "test", .str "pack"]) ∧
    node.get? "tags" = none ∧
    node.get? "services" =
      some (.list [.map [(.str "name", .str "redis:7"), (.str "alias", .str "cache")]]) ∧
    node.get? "needs" = some (.list (List.replicate 2
      (.map [(.str "job", .str "lint"), (.str "artifacts", .bool false), (.str "optional", .bool false)]))) ∧
    node.get? "variables" = some (.map [(.str "A", .str "3"), (.str "B", .str "2")]) ∧
    node.get? "coverage" = some (.str "/lines/") := by
  obtain ⟨commands, -, -, -, tags, services, -, -, needs, vars, -, coverage⟩ :=
    exports_of_calls "build" none repeated
  exact ⟨(commands .main).trans rfl, tags.trans rfl, services.trans rfl, needs.trans rfl, vars.trans rfl,
    coverage.trans rfl⟩

end Job
end CiPipeline
