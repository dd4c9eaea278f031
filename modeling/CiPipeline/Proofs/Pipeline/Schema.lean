import CiPipeline.Proofs.Job.Schema
import CiPipeline.Proofs.Pipeline.Reachable

/-!
# The schema of a pipeline

However a pipeline was declared, refusals included, its stages and the names of its jobs are
distinct, no name is blank, and every job is exported in the shape of the schema, in a stage that is
registered (`jobs_conform`).
-/

namespace CiPipeline.Pipeline

theorem wellFormed_of_registered {p : Pipeline} (registered : Registered p) {job : Job}
    (member : job ∈ p.jobs) : job.WellFormed := by
  obtain ⟨block, made⟩ := registered.built job member
  rw [← made]
  exact Job.wellFormed_run job.name job.stage block

theorem jobs_conform {p : Pipeline} (reachable : Reachable p) :
    p.stages.toList.Nodup ∧ (p.jobs.map (·.name)).Nodup ∧
      ∀ job ∈ p.jobs, Text.allBlank job.name.toList = false ∧ Conforms p.stages.toList (toNode job) := by
  have regs := registered reachable
  refine ⟨p.stages.nodup, regs.distinct, fun job member => ⟨regs.visible job member, ?_⟩⟩
  exact conforms_toNode (wellFormed_of_registered regs member) (regs.staged job member)

/-- A refused job, a job declared twice with a repeated exit code and tag, and a blank name. -/
def refusedAndRepeated : List Declaration :=
  [.job "ship" (some "deploy") [.retry 9 []], .stage "test", .job "ship" none [.coverage "total"],
    .job "ship" (some "build") [.retry 2 [.exitCode 3, .cause .always, .exitCode 3], .tag "slow",
      .tag "slow", .needs "lint" false true, .allowFailureOnExitCode 1], .job "\t" none []]

theorem jobs_conform_refusedAndRepeated :
    Reachable (after {} refusedAndRepeated) ∧
      (after {} refusedAndRepeated).stages.toList = ["test", "build"] ∧
      ∃ job ∈ (after {} refusedAndRepeated).jobs, job.name = "ship" ∧ job.stage = some "build" ∧
        Conforms ["test", "build"] (toNode job) := by
  have reachable := reachable_after refusedAndRepeated
  obtain ⟨-, -, each⟩ := jobs_conform reachable
  exact ⟨reachable, by decide, _, .head _, by decide, by decide, (each _ (.head _)).2⟩

end CiPipeline.Pipeline
