import CiPipeline.Proofs.Pipeline.Erasure
import CiPipeline.Proofs.Pipeline.Replay

/-!
# Reachable pipelines

A pipeline is `Reachable` when some history of declarations comes to it, whatever was refused on the
way. Since refusals leave no mark it replays the accepted ones, and so its jobs have distinct names
that can be seen, each is what its block made of a fresh job, and its stage is registered
(`registered`).
-/

namespace CiPipeline.Pipeline

def Reachable (p : Pipeline) : Prop := ∃ ds, after {} ds = p

theorem reachable_after (ds : List Declaration) : Reachable (after {} ds) := ⟨ds, rfl⟩

theorem reachable_declare {p : Pipeline} (reachable : Reachable p) (d : Declaration) :
    Reachable (p.declare d).pipeline := by
  obtain ⟨ds, rfl⟩ := reachable
  exact ⟨ds ++ [d], by rw [after, List.foldl_append]; rfl⟩

theorem replays_of_reachable {p : Pipeline} (reachable : Reachable p) :
    ∃ ds, (∀ d ∈ ds, d.refusal? = none) ∧ Replays ds p := by
  obtain ⟨ds, rfl⟩ := reachable
  have accepted : ∀ d ∈ ds.filter (·.refusal?.isNone), d.refusal? = none := fun d member =>
    Option.isNone_iff_eq_none.mp (List.mem_filter.mp member).2
  refine ⟨_, accepted, ?_⟩
  rw [← after_accepted]
  exact replays_empty.after accepted

theorem Declaration.eq_job_of_builtAs? {d : Declaration} {name : String} {job : Job}
    (built : d.builtAs? name = some job) :
    ∃ stage block, d = .job name stage block ∧ ((Job.fresh name stage).run block).job = job := by
  cases d with
  | stage other => cases built
  | job other stage block =>
    by_cases same : other = name
    · subst same
      rw [builtAs?, jobName?, if_pos rfl] at built
      exact ⟨stage, block, rfl, Option.some.inj built⟩
    · simp [builtAs?, jobName?, same] at built

theorem Declaration.visible_of_accepted {name : String} {stage : Option String}
    {block : List Job.Action} (accepted : (Declaration.job name stage block).refusal? = none) :
    Text.allBlank name.toList = false := by
  rw [refusal?] at accepted
  split at accepted
  · cases accepted
  next visible => exact Bool.eq_false_iff.mpr visible

/-- What holds of the registry however its pipeline was declared. -/
structure Registered (p : Pipeline) : Prop where
  distinct : (p.jobs.map (·.name)).Nodup
  visible : ∀ job ∈ p.jobs, Text.allBlank job.name.toList = false
  staged : ∀ job ∈ p.jobs, ∀ stage ∈ job.stage, stage ∈ p.stages.toList
  built : ∀ job ∈ p.jobs, ∃ block, ((Job.fresh job.name job.stage).run block).job = job

theorem registered {p : Pipeline} (reachable : Reachable p) : Registered p := by
  obtain ⟨ds, accepted, replays⟩ := replays_of_reachable reachable
  have declared : ∀ job ∈ p.jobs, ∃ block, .job job.name job.stage block ∈ ds ∧
      ((Job.fresh job.name job.stage).run block).job = job := by
    intro job member
    obtain ⟨d, found, built⟩ := List.exists_of_findSome?_eq_some (replays.last job member)
    obtain ⟨stage, block, rfl, made⟩ := d.eq_job_of_builtAs? built
    have kept : stage = job.stage := by rw [← made, (Job.run_keeps _ block).2, Job.fresh]
    subst kept
    exact ⟨block, List.mem_reverse.mp found, made⟩
  refine ⟨replays.distinct, ?visible, ?staged, ?built⟩
  case visible =>
    intro job member
    obtain ⟨block, found, -⟩ := declared job member
    exact Declaration.visible_of_accepted (accepted _ found)
  case staged =>
    intro job member stage named
    obtain ⟨block, found, -⟩ := declared job member
    rw [replays.stages, List.mem_eraseDups, List.mem_filterMap]
    exact ⟨_, found, named⟩
  case built =>
    intro job member
    obtain ⟨block, -, made⟩ := declared job member
    exact ⟨block, made⟩

end CiPipeline.Pipeline
