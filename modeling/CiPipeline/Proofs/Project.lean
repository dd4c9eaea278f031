import CiPipeline.Project
import CiPipeline.Proofs.Pipeline.Order

/-!
# What the project's pipeline depends on

The pipeline of the project can always be built, and of the environment only counts whether it is
`Tagged`: a tag adds a stage and a job behind all others, and changes no other job
(`pipeline_of_environment`).
-/

namespace CiPipeline

/-- The tag has a value that is not empty. -/
def Environment.Tagged (env : Environment) : Prop :=
  ∃ tag, env.value? "CI_COMMIT_TAG" = some tag ∧ tag ≠ ""

theorem Environment.isTag_iff {env : Environment} : env.isTag = true ↔ env.Tagged := by
  have name : plainName (VariableGroup.commit.reference "TAG") = "CI_COMMIT_TAG" := by decide
  rw [isTag, commitTag?, read?, name, Option.isSome_iff_exists]
  simp [Option.filter_eq_some_iff, Tagged]

namespace Project
open Pipeline

theorem declarations_of_tagged {env : Environment} (tagged : env.Tagged) :
    declarations env = branchDeclarations ++ tagDeclarations :=
  if_pos (Environment.isTag_iff.mpr tagged)

theorem declarations_of_untagged {env : Environment} (untagged : ¬ env.Tagged) :
    declarations env = branchDeclarations :=
  if_neg (mt Environment.isTag_iff.mp untagged)

theorem declarations_congr {env other : Environment} (agree : env.Tagged ↔ other.Tagged) :
    declarations env = declarations other := by
  by_cases tagged : env.Tagged
  · rw [declarations_of_tagged tagged, declarations_of_tagged (agree.mp tagged)]
  · rw [declarations_of_untagged tagged, declarations_of_untagged (mt agree.mpr tagged)]

/-- What holds of the declarations on a branch and on a tag holds in every environment. -/
theorem forall_declarations {P : List Declaration → Prop} (branch : P branchDeclarations)
    (tag : P (branchDeclarations ++ tagDeclarations)) (env : Environment) : P (declarations env) := by
  by_cases tagged : env.Tagged
  · rwa [declarations_of_tagged tagged]
  · rwa [declarations_of_untagged tagged]

theorem buildUp_declarations (env : Environment) : BuildUp [] (declarations env) :=
  forall_declarations (by decide) (by decide) env

theorem pipeline_eq (env : Environment) : pipeline env = .ok (after {} (declarations env)) :=
  (build_of_buildUp (buildUp_declarations env)).1

theorem document_eq (env : Environment) : document env = .ok (after {} (declarations env)).render := by
  rw [document, pipeline_eq]
  rfl

theorem ordered_after (env : Environment) : (after {} (declarations env)).Ordered :=
  (build_of_buildUp (buildUp_declarations env)).2.1

theorem toList_render_after (env : Environment) :
    (after {} (declarations env)).render.toList =
      (after {} (declarations env)).stagesText ++ (after {} (declarations env)).jobs.flatMap jobText := by
  have nonempty : (after {} (declarations env)).Nonempty :=
    .inl (forall_declarations (P := fun ds => (after {} ds).stages.isEmpty = false) rfl rfl env)
  have unshadowed : (after {} (declarations env)).Unshadowed := fun _ =>
    forall_declarations (P := fun ds => "stages" ∉ (after {} ds).jobs.map (·.name))
      (by decide) (by decide) env
  exact toList_render_eq_flatMap (registered (reachable_after _)) nonempty unshadowed

/-- The job that a tag adds. -/
def publishing : Job := ((Job.fresh "crates_io" (some "publish")).run publish).job

theorem after_tagged {tagged branch : Environment} (tag : tagged.Tagged) (untagged : ¬ branch.Tagged) :
    (after {} (declarations tagged)).stages.toList =
        (after {} (declarations branch)).stages.toList ++ ["publish"] ∧
      (after {} (declarations tagged)).jobs = (after {} (declarations branch)).jobs ++ [publishing] := by
  obtain ⟨-, -, stages, jobs⟩ := build_of_buildUp (buildUp_declarations tagged)
  obtain ⟨-, -, stages', jobs'⟩ := build_of_buildUp (buildUp_declarations branch)
  rw [stages, stages', jobs, jobs', declarations_of_tagged tag, declarations_of_untagged untagged]
  exact ⟨by decide, List.filterMap_append⟩

/-- In every environment the project has a pipeline in which each job stands behind those it needs
and in a registered stage. Environments that agree on the tag have the same one, and a tag only adds
the stage and the job that publish, behind all that stands on a branch. -/
theorem pipeline_of_environment :
    (∀ env, ∃ p, pipeline env = .ok p ∧ document env = .ok p.render ∧ p.Ordered) ∧
    (∀ env other : Environment, (env.Tagged ↔ other.Tagged) →
      pipeline env = pipeline other ∧ document env = document other) ∧
    ∀ tagged branch : Environment, tagged.Tagged → ¬ branch.Tagged →
      ∃ p q job, pipeline tagged = .ok p ∧ pipeline branch = .ok q ∧ job.name = "crates_io" ∧
        p.stages.toList = q.stages.toList ++ ["publish"] ∧ p.jobs = q.jobs ++ [job] ∧
        q.render.toList = q.stagesText ++ q.jobs.flatMap jobText ∧
        p.render.toList = p.stagesText ++ q.jobs.flatMap jobText ++ jobText job := by
  refine ⟨?builds, ?agree, ?tag⟩
  case builds =>
    intro env
    exact ⟨_, pipeline_eq env, document_eq env, ordered_after env⟩
  case agree =>
    intro env other agree
    rw [document, document, pipeline, pipeline, declarations_congr agree]
    exact ⟨rfl, rfl⟩
  case tag =>
    intro tagged branch tag untagged
    obtain ⟨stages, jobs⟩ := after_tagged tag untagged
    refine ⟨_, _, publishing, pipeline_eq tagged, pipeline_eq branch, rfl, stages, jobs,
      toList_render_after branch, ?_⟩
    rw [toList_render_after tagged, jobs, List.flatMap_append, List.flatMap_singleton, List.append_assoc]

/-- A tag build with the variables of its branch around the tag. -/
def tagBuild : Environment :=
  .ofList [("CI", "true"), ("CI_COMMIT_TAG", "v1"), ("CI_COMMIT_BRANCH", "main")]

/-- The tag of a branch build has an empty value. -/
def branchBuild : Environment := .ofList [("CI_COMMIT_TAG", "v1"), ("CI_COMMIT_TAG", "")]

theorem tagged_tagBuild : tagBuild.Tagged := ⟨"v1", by decide, by decide⟩

theorem untagged_branchBuild : ¬ branchBuild.Tagged := by
  rintro ⟨tag, set, visible⟩
  have empty : branchBuild.value? "CI_COMMIT_TAG" = some "" := by decide
  rw [empty] at set
  exact visible (Option.some.inj set).symm

theorem pipeline_of_tagBuild :
    tagBuild.Tagged ∧ ¬ branchBuild.Tagged ∧
      document tagBuild = document (.ofList [("CI_COMMIT_TAG", "v2")]) ∧
      document branchBuild = document {} ∧
      ∃ p q job, pipeline tagBuild = .ok p ∧ pipeline branchBuild = .ok q ∧ job.name = "crates_io" ∧
        p.stages.toList = q.stages.toList ++ ["publish"] ∧ p.jobs = q.jobs ++ [job] := by
  obtain ⟨-, agree, tag⟩ := pipeline_of_environment
  refine ⟨tagged_tagBuild, untagged_branchBuild, (agree _ _ ?_).2, (agree _ _ ?_).2, ?_⟩
  · exact iff_of_true tagged_tagBuild ⟨"v2", by decide, by decide⟩
  · exact iff_of_false untagged_branchBuild (by simp [Environment.Tagged, Environment.value?])
  · obtain ⟨p, q, job, built, built', named, stages, jobs, -⟩ :=
      tag tagBuild branchBuild tagged_tagBuild untagged_branchBuild
    exact ⟨p, q, job, built, built', named, stages, jobs⟩

end Project
end CiPipeline
