import CiPipeline.Proofs.Node.Sections
import CiPipeline.Proofs.Pipeline.Export

/-!
# The document of a pipeline in sections

The document of a pipeline is a section for its stages and one for each job, and each section is a
document of its own (`render_eq_sections`). A new job whose stage is known adds its section at the
end, and a job that is declared again in its stage changes no section but its own.
-/

namespace CiPipeline

/-- The document of the map with one entry. -/
def sectionText (name : String) (value : Node) : List Char :=
  (Node.map [(.str name, value)]).documentText

namespace Pipeline
open Mapping

/-- The section of the stages, which a pipeline without stages has not. -/
def stagesText (p : Pipeline) : List Char :=
  if p.stages.isEmpty then [] else sectionText "stages" (toNode p.stages.toList)

def jobText (job : Job) : List Char := sectionText job.name (toNode job)

/-- Something was declared, and so the document is not that of an empty map. -/
def Nonempty (p : Pipeline) : Prop := p.stages.isEmpty = false ∨ p.jobs ≠ []

theorem pairs_sections_ne_nil {p : Pipeline} (nonempty : p.Nonempty) : pairs p.sections ≠ [] := by
  intro empty
  obtain ⟨noStages, noJobs⟩ := List.append_eq_nil_iff.mp (List.map_eq_nil_iff.mp empty)
  rcases nonempty with staged | jobs
  · rw [staged] at noStages
    cases noStages
  · exact jobs (List.map_eq_nil_iff.mp noJobs)

theorem toList_render_eq_flatMap {p : Pipeline} (registered : Registered p) (nonempty : p.Nonempty)
    (unshadowed : p.Unshadowed) :
    p.render.toList = p.stagesText ++ p.jobs.flatMap jobText := by
  have scalars : ∀ entry ∈ pairs p.sections, entry.1.isScalar = true := by
    intro entry member
    obtain ⟨field, -, rfl⟩ := List.mem_map.mp member
    rfl
  rw [render, Node.toList_document, toNode_eq_map registered unshadowed,
    Node.documentText_map (pairs_sections_ne_nil nonempty) scalars, pairs, sections, List.map_append,
    List.flatMap_append, List.map_map, List.flatMap_map, List.flatMap_map, stagesText]
  split
  · rfl
  · rw [List.flatMap_singleton]
    rfl

/-! ### One more declaration -/

theorem placeJob_of_new {job : Job} {jobs : List Job} (new : job.name ∉ jobs.map (·.name)) :
    placeJob job jobs = jobs ++ [job] := by
  induction jobs with
  | nil => rfl
  | cons first jobs ih =>
    rw [List.map_cons, List.mem_cons, not_or] at new
    rw [placeJob, if_neg (by simpa using Ne.symm new.1), ih new.2, List.cons_append]

theorem placeJob_of_known {job old : Job} {front : List Job} (new : job.name ∉ front.map (·.name))
    (same : old.name = job.name) (back : List Job) :
    placeJob job (front ++ old :: back) = front ++ job :: back := by
  induction front with
  | nil => rw [List.nil_append, placeJob, if_pos (by simpa using same), List.nil_append]
  | cons first front ih =>
    rw [List.map_cons, List.mem_cons, not_or] at new
    rw [List.cons_append, placeJob, if_neg (by simpa using Ne.symm new.1), ih new.2, List.cons_append]

/-- A job whose stage is known is placed, and nothing else happens. -/
theorem declare_of_known {p : Pipeline} {name : String} {stage : Option String}
    {block : List Job.Action} (accepted : (p.declare (.job name stage block)).error = none)
    (known : ∀ s ∈ stage, s ∈ p.stages.toList) :
    (p.declare (.job name stage block)).pipeline =
      { p with jobs := placeJob ((Job.fresh name stage).run block).job p.jobs } := by
  rw [declare_error] at accepted
  rw [declare_of_accepted accepted]
  cases stage with
  | none => rfl
  | some s =>
    have same : p.stages.insert s = p.stages := OrderedSet.insert_of_mem (known s rfl)
    simp only [Declaration.stage?, Declaration.built?, Option.elim_some, same]

theorem render_declare_new {p : Pipeline} (reachable : Reachable p) (nonempty : p.Nonempty)
    (unshadowed : p.Unshadowed) {name : String} {stage : Option String} {block : List Job.Action}
    (accepted : (p.declare (.job name stage block)).error = none) (new : name ∉ p.jobs.map (·.name))
    (apart : p.stages.isEmpty = false → name ≠ "stages") (known : ∀ s ∈ stage, s ∈ p.stages.toList) :
    (p.declare (.job name stage block)).pipeline.render.toList =
      p.render.toList ++ jobText ((Job.fresh name stage).run block).job := by
  have named : ((Job.fresh name stage).run block).job.name = name := (Job.run_keeps _ block).1
  have declared := declare_of_known accepted known
  rw [placeJob_of_new (by rwa [named])] at declared
  have grown := registered (reachable_declare reachable (.job name stage block))
  rw [declared] at grown ⊢
  rw [toList_render_eq_flatMap grown (.inr (by simp)) ?unshadowed,
    toList_render_eq_flatMap (registered reachable) nonempty unshadowed]
  · simp [stagesText, List.append_assoc]
  case unshadowed =>
    intro staged
    rw [List.map_append, List.mem_append, not_or]
    exact ⟨unshadowed staged, by simpa [named] using Ne.symm (apart staged)⟩

theorem render_declare_again {p : Pipeline} (reachable : Reachable p) (unshadowed : p.Unshadowed)
    {front back : List Job} {job : Job} {block : List Job.Action} (jobs : p.jobs = front ++ job :: back)
    (accepted : (p.declare (.job job.name job.stage block)).error = none) :
    (p.declare (.job job.name job.stage block)).pipeline.render.toList =
      p.stagesText ++ front.flatMap jobText ++
        jobText ((Job.fresh job.name job.stage).run block).job ++ back.flatMap jobText := by
  have named : ((Job.fresh job.name job.stage).run block).job.name = job.name :=
    (Job.run_keeps _ block).1
  have declared := declare_of_known accepted ((registered reachable).staged job (by simp [jobs]))
  have first : ((Job.fresh job.name job.stage).run block).job.name ∉ front.map (·.name) := by
    have distinct := (registered reachable).distinct
    rw [jobs, List.map_append, List.map_cons] at distinct
    rw [named]
    exact fun earlier => (List.nodup_append.mp distinct).2.2 _ earlier _ List.mem_cons_self rfl
  rw [jobs, placeJob_of_known first named.symm] at declared
  have replaced := registered (reachable_declare reachable (.job job.name job.stage block))
  rw [declared] at replaced ⊢
  rw [toList_render_eq_flatMap replaced (.inr (by simp)) ?unshadowed]
  · simp [stagesText, List.append_assoc]
  case unshadowed =>
    intro staged
    simpa [jobs, named] using unshadowed staged

/-- The document is the section of the stages and those of the jobs, each a document of its own. A
new job in a known stage only adds its section, and a job declared again in its stage takes the
place of its section and leaves the text before and after it alone. -/
theorem render_eq_sections {p : Pipeline} (reachable : Reachable p) (nonempty : p.Nonempty)
    (unshadowed : p.Unshadowed) :
    p.render.toList = p.stagesText ++ p.jobs.flatMap jobText ∧
    (∀ name stage block, (p.declare (.job name stage block)).error = none →
      name ∉ p.jobs.map (·.name) → (p.stages.isEmpty = false → name ≠ "stages") →
      (∀ s ∈ stage, s ∈ p.stages.toList) →
      (p.declare (.job name stage block)).pipeline.render.toList =
        p.render.toList ++ jobText ((Job.fresh name stage).run block).job) ∧
    (∀ front job back block, p.jobs = front ++ job :: back →
      (p.declare (.job job.name job.stage block)).error = none →
      p.render.toList =
        p.stagesText ++ front.flatMap jobText ++ jobText job ++ back.flatMap jobText ∧
      (p.declare (.job job.name job.stage block)).pipeline.render.toList =
        p.stagesText ++ front.flatMap jobText ++
          jobText ((Job.fresh job.name job.stage).run block).job ++ back.flatMap jobText) := by
  have whole := toList_render_eq_flatMap (registered reachable) nonempty unshadowed
  refine ⟨whole, ?new, ?again⟩
  case new =>
    intro name stage block accepted new apart known
    exact render_declare_new reachable nonempty unshadowed accepted new apart known
  case again =>
    intro front job back block jobs accepted
    refine ⟨?_, render_declare_again reachable unshadowed jobs accepted⟩
    rw [whole, jobs]
    simp [List.append_assoc]

/-- A job with a name of two lines, whose script ends in a literal, and an empty job behind it. -/
def namedOnTwoLines : List Declaration :=
  [.stage "build", .job "a\nb" (some "build") [.script .main [.shell "x\ny"]], .job "lint" none []]

theorem render_namedOnTwoLines :
    Reachable (after {} namedOnTwoLines) ∧ (after {} namedOnTwoLines).Nonempty ∧
      (after {} namedOnTwoLines).Unshadowed ∧
      (after {} namedOnTwoLines).render.toList = "stages:\n  - build\n".toList ++
        "|\n    a\n    b\n:\n  stage: build\n  script:\n    - |\n        x\n        y\n".toList ++
        "lint: \x7b\x7d\n".toList ∧
      (after {} (namedOnTwoLines ++ [.job "c" (some "build") []])).render.toList =
        (after {} namedOnTwoLines).render.toList ++ "c:\n  stage: build\n".toList ∧
      (after {} (namedOnTwoLines ++ [.job "lint" none [.coverage "x: y"]])).render.toList =
        "stages:\n  - build\n".toList ++
        "|\n    a\n    b\n:\n  stage: build\n  script:\n    - |\n        x\n        y\n".toList ++
        "lint:\n  coverage: '/x: y/'\n".toList := by
  have reachable := reachable_after namedOnTwoLines
  have nonempty : (after {} namedOnTwoLines).Nonempty := .inl rfl
  have unshadowed : (after {} namedOnTwoLines).Unshadowed := fun _ => by decide
  obtain ⟨whole, new, again⟩ := render_eq_sections reachable nonempty unshadowed
  refine ⟨reachable, nonempty, unshadowed, whole.trans (by decide), ?_, ?_⟩
  · refine (new "c" (some "build") [] rfl (by decide) (by decide) ?_).trans ?_
    · intro s named
      obtain rfl := Option.some.inj named
      decide
    · exact congrArg (_ ++ ·) (by decide)
  · have jobs : (after {} namedOnTwoLines).jobs = (after {} namedOnTwoLines).jobs.take 1 ++
        (Job.fresh "lint" none) :: [] := rfl
    exact (again _ _ _ [.coverage "x: y"] jobs rfl).2.trans (by decide)

end Pipeline
end CiPipeline
